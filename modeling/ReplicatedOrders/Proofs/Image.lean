/-
Images and back: decoding the text of an image, and starting a store from it.

The text lists the orders one after the other. The order of the list does not matter, so every statement here is about
all of them.
- `Snapshot.decode_listed`: what is decoded from a text, with the exact condition under which it can be decoded at all.
- `Store.get?_ofSnapshot`: what a store that starts from an image holds.
- `Store.decode_snapshot_text`: decoding undoes writing, for a whole store.
-/
import ReplicatedOrders.Proofs.Wire
import ReplicatedOrders.Snapshot

namespace ReplicatedOrders

open Json

/-! ## Maps from listings -/

namespace OrderMap

/-- no key twice -/
def Distinct (listing : List (String × Order)) : Prop := listing.Pairwise fun a b => a.1 ≠ b.1

theorem distinct_toList (m : OrderMap) : Distinct m.toList := by
  refine m.distinct_keys_toList.imp fun {a b} h heq => h ?_
  rw [heq]
  exact Std.ReflCmp.compare_self

theorem Distinct.perm {l l' : List (String × Order)} (h : Distinct l) (hp : l'.Perm l) : Distinct l' :=
  (hp.pairwise_iff fun hne => Ne.symm hne).2 h

theorem getElem?_ofList {listing : List (String × Order)} (hd : Distinct listing) (key : String) (o : Order) :
    (Std.ExtTreeMap.ofList listing : OrderMap)[key]? = some o ↔ (key, o) ∈ listing := by
  have hmem : ∀ o', (key, o') ∈ listing → (Std.ExtTreeMap.ofList listing : OrderMap)[key]? = some o' := by
    intro o' h
    refine Std.ExtTreeMap.getElem?_ofList_of_mem Std.ReflCmp.compare_self (hd.imp ?_) h
    intro a b hne heq
    exact hne (by simpa using heq)
  refine ⟨?_, hmem o⟩
  intro h
  by_cases hkey : key ∈ listing.map Prod.fst
  · obtain ⟨⟨k, o'⟩, ho', rfl⟩ := List.mem_map.1 hkey
    have heq := hmem o' ho'
    rw [h] at heq
    exact Option.some.inj heq ▸ ho'
  · rw [Std.ExtTreeMap.getElem?_ofList_of_contains_eq_false (by simpa using hkey)] at h
    cases h

/-- a map does not depend on the order in which its members are listed -/
theorem ofList_map_of_perm {m : OrderMap} {listing : List (String × Order)} (hp : listing.Perm m.toList)
    (f : Order → Order) :
    (Std.ExtTreeMap.ofList (listing.map fun o => (o.1, f o.2)) : OrderMap) = m.map fun _ => f := by
  have hd : Distinct (listing.map fun o => (o.1, f o.2)) := List.pairwise_map.2 ((distinct_toList m).perm hp)
  refine Std.ExtTreeMap.ext_getElem? fun key => Option.ext fun o => ?_
  rw [getElem?_ofList hd, Std.ExtTreeMap.getElem?_map, List.mem_map, Option.map_eq_some_iff]
  constructor
  · rintro ⟨⟨k, o'⟩, ho', heq⟩
    cases heq
    exact ⟨o', Std.ExtTreeMap.mem_toList_iff_getElem?_eq_some.1 (hp.mem_iff.1 ho'), rfl⟩
  · rintro ⟨o', ho', rfl⟩
    exact ⟨(key, o'), hp.mem_iff.2 (Std.ExtTreeMap.mem_toList_iff_getElem?_eq_some.2 ho'), rfl⟩

end OrderMap

/-! ## The text of an image -/

namespace Snapshot

/-- the document of an image whose orders are listed in this order -/
def listedDoc (cursor : EntryId) (createdAt : Int64) (listing : List (String × Order)) : Doc :=
  .record [(cursorField, cursor.toDoc), (createdField, .number (.ofInt64 createdAt)),
    (ordersField, .record (listing.map fun o => (o.1, o.2.toDoc)))]

/-- its text; `text` lists the orders by rising hash -/
def listed (cursor : EntryId) (createdAt : Int64) (listing : List (String × Order)) : String :=
  (listedDoc cursor createdAt listing).compact

theorem text_eq_listed (s : Snapshot) : s.text = listed s.cursor s.createdAt s.orders.toList := rfl

section

variable {listing : List (String × Order)} (h : ∀ o ∈ listing, o.2.Lossless)
include h

theorem plain_listedDoc (cursor : EntryId) (createdAt : Int64) : (listedDoc cursor createdAt listing).Plain := by
  refine .record fun f hf => ?_
  simp only [List.mem_cons, List.not_mem_nil, or_false] at hf
  rcases hf with rfl | rfl | rfl
  · exact .text _
  · exact .whole _
  · refine .record fun f hf => ?_
    obtain ⟨o, ho, rfl⟩ := List.mem_map.1 hf
    exact Order.plain_toDoc (h o ho)

theorem mapMembers_listing (levels : Nat) :
    Decoder.mapMembers Order.decoder (levels + 2) (listing.map fun o => (some o.1, o.2.toDoc)) =
      if ∀ o ∈ listing, o.2.Fits levels then .ok (listing.map fun o => (o.1, o.2.restored))
      else .error .malformed := by
  induction listing with
  | nil => simp [Decoder.mapMembers]
  | cons o listing ih =>
    have ho := Order.decoder_toDoc (h o List.mem_cons_self) levels
    have hrest := ih fun o' ho' => h o' (List.mem_cons_of_mem o ho')
    have hcons : (∀ o' ∈ o :: listing, o'.2.Fits levels) ↔ o.2.Fits levels ∧ ∀ o' ∈ listing, o'.2.Fits levels :=
      List.forall_mem_cons
    rw [List.map_cons, Decoder.mapMembers, ho, hrest]
    by_cases hfit : o.2.Fits levels
    · by_cases hfits : ∀ o' ∈ listing, o'.2.Fits levels
      · rw [if_pos hfit, if_pos hfits, if_pos (hcons.2 ⟨hfit, hfits⟩)]
        rfl
      · rw [if_pos hfit, if_neg hfits, if_neg fun hall => hfits (hcons.1 hall).2]
        rfl
    · rw [if_neg hfit, if_neg fun hall => hfit (hcons.1 hall).1]
      rfl

theorem ordersDecoder_listing (levels : Nat) :
    ordersDecoder (levels + 3) (.record (listing.map fun o => (o.1, o.2.toDoc))) =
      if ∀ o ∈ listing, o.2.Fits levels then
        .ok (Std.ExtTreeMap.ofList (listing.map fun o => (o.1, o.2.restored)))
      else .error .malformed := by
  have hmembers := mapMembers_listing h levels
  simp only [ordersDecoder, Doc.record, List.map_map, Decoder.map, Function.comp_def]
  rw [hmembers]
  split_ifs
  · rw [Std.ExtTreeMap.ofList_eq_foldl]
    rfl
  · rfl

/-- **Decoding an image.** The text of an image is decoded exactly if every order fits: its off-chain data nests at most
124 levels, and what it knows from the chain at most 123. -/
theorem decode_listed (cursor : EntryId) (createdAt : Int64) :
    decode (listed cursor createdAt listing) =
      if ∀ o ∈ listing, o.2.Fits 123 then
        .ok ⟨cursor, createdAt, Std.ExtTreeMap.ofList (listing.map fun o => (o.1, o.2.restored))⟩
      else .error .malformed := by
  have hcursor : Fields.field 126 {} cursorField cursor.toDoc = .ok { cursor := some cursor } := by
    simp only [Fields.field, if_true, Slot.read, EntryId.decoder_toDoc]
    rfl
  have hcreated : Fields.field 126 { cursor := some cursor } createdField (.number (.ofInt64 createdAt)) =
      .ok { cursor := some cursor, createdAt := some createdAt } := by
    simp only [Fields.field, cursorField, createdField, String.reduceEq, if_true, if_false, Slot.read,
      Decoder.int64_ofInt64]
    rfl
  have horders : Fields.field 126 { cursor := some cursor, createdAt := some createdAt } ordersField
      (.record (listing.map fun o => (o.1, o.2.toDoc))) =
        if ∀ o ∈ listing, o.2.Fits 123 then
          .ok ⟨some cursor, some createdAt,
            some (Std.ExtTreeMap.ofList (listing.map fun o => (o.1, o.2.restored)))⟩
        else .error .malformed := by
    simp only [Fields.field, cursorField, createdField, ordersField, String.reduceEq, if_true, if_false, Slot.read,
      ordersDecoder_listing h 123]
    split_ifs <;> rfl
  have hread : decoder maxDepth (listedDoc cursor createdAt listing) =
      (readMembers (Fields.field 126) {} [(some cursorField, cursor.toDoc),
        (some createdField, .number (.ofInt64 createdAt)),
        (some ordersField, .record (listing.map fun o => (o.1, o.2.toDoc)))]).bind Fields.close := rfl
  rw [decode, listed, decode_compact decoder (plain_listedDoc h cursor createdAt), hread, readMembers_of_ok hcursor,
    readMembers_of_ok hcreated]
  by_cases hfits : ∀ o ∈ listing, o.2.Fits 123
  · rw [if_pos hfits] at horders ⊢
    rw [readMembers_of_ok horders]
    rfl
  · rw [if_neg hfits] at horders ⊢
    rw [readMembers_of_error horders]
    rfl

end

end Snapshot

/-! ## A store from an image -/

namespace Store

theorem orders_ofSnapshot (image : Snapshot) :
    (ofSnapshot image).orders = Std.ExtTreeMap.ofList
      ((image.orders.toList.filter fun o => o.1 ≠ "").map fun o => (o.1, { o.2 with hash := o.1 })) := by
  simp only [Std.ExtTreeMap.ofList_eq_foldl, List.foldl_map, List.foldl_filter, ofSnapshot]
  congr 1
  funext m o
  by_cases ho : o.1 = "" <;> simp [ho]

/-- what a store that starts from an image holds -/
theorem get?_ofSnapshot (image : Snapshot) (hash : String) :
    (ofSnapshot image).get? hash = if hash = "" then none else image.orders[hash]?.map fun o => { o with hash } := by
  have hd : OrderMap.Distinct ((image.orders.toList.filter fun o => o.1 ≠ "").map fun o =>
      (o.1, { o.2 with hash := o.1 })) :=
    List.pairwise_map.2 ((OrderMap.distinct_toList _).filter _)
  refine Option.ext fun o => ?_
  rw [get?, orders_ofSnapshot, OrderMap.getElem?_ofList hd]
  simp only [List.mem_map, List.mem_filter, decide_eq_true_eq]
  constructor
  · rintro ⟨⟨k, o'⟩, ⟨ho', hk⟩, heq⟩
    cases heq
    rw [if_neg hk, Std.ExtTreeMap.mem_toList_iff_getElem?_eq_some.1 ho']
    rfl
  · intro ho
    split_ifs at ho with hhash
    obtain ⟨o', ho', rfl⟩ := Option.map_eq_some_iff.1 ho
    exact ⟨(hash, o'), ⟨Std.ExtTreeMap.mem_toList_iff_getElem?_eq_some.2 ho', hhash⟩, rfl⟩

/-! ## A whole store -/

/-- what is decoded from an image of a store -/
def restoredImage (s : Store) (createdAt : Int64) : Snapshot :=
  ⟨s.cursor, createdAt, s.orders.map fun _ => Order.restored⟩

/-- the text of an image of a store is decoded, or not, in whatever order it lists the orders -/
theorem decode_listed {s : Store} (h : ∀ hash o, s.get? hash = some o → o.Lossless) (createdAt : Int64)
    {listing : List (String × Order)} (hp : listing.Perm s.orders.toList) :
    Snapshot.decode (Snapshot.listed s.cursor createdAt listing) =
      if ∀ o ∈ s.orders.toList, o.2.Fits 123 then .ok (s.restoredImage createdAt) else .error .malformed := by
  have hlossless : ∀ o ∈ listing, o.2.Lossless := by
    intro o ho
    exact h o.1 o.2 (Std.ExtTreeMap.mem_toList_iff_getElem?_eq_some.1 (hp.mem_iff.1 ho))
  have hfits : (∀ o ∈ listing, o.2.Fits 123) ↔ ∀ o ∈ s.orders.toList, o.2.Fits 123 :=
    forall_congr' fun o => by rw [hp.mem_iff]
  rw [Snapshot.decode_listed hlossless, if_congr hfits rfl rfl, OrderMap.ofList_map_of_perm hp]
  rfl

/-- a store that starts from an image of a store has every order with a hash -/
theorem get?_ofSnapshot_restoredImage {s : Store} (h : ∀ hash o, s.get? hash = some o → o.hash = hash)
    (createdAt : Int64) (hash : String) :
    (ofSnapshot (s.restoredImage createdAt)).get? hash =
      if hash = "" then none else (s.get? hash).map Order.restored := by
  have hget : (s.restoredImage createdAt).orders[hash]? = (s.get? hash).map Order.restored :=
    Std.ExtTreeMap.getElem?_map
  rw [get?_ofSnapshot, hget]
  cases ho : s.get? hash with
  | none => rfl
  | some o => simp only [Option.map_some, Order.restored, h hash o ho]

/-- **Decoding undoes writing.** If every order stands under its own hash, holds no real number, and nests at most 124
levels in its off-chain data and 123 in what it knows from the chain, then the text of the image is decoded, in whatever
order it lists the orders. The image has the cursor and the creation time, and a store that starts from it has every
order with a hash, except that on-chain data that says nothing is gone. -/
theorem decode_snapshot_text (s : Store) (createdAt : Int64)
    (hhash : ∀ hash o, s.get? hash = some o → o.hash = hash)
    (hlossless : ∀ hash o, s.get? hash = some o → o.Lossless)
    (hdepth : ∀ hash o, s.get? hash = some o →
      o.offChainData.depth ≤ 124 ∧ ∀ d ∈ o.onChainData, d.orderInfo.depth ≤ 123) :
    ∃ image : Snapshot,
      Snapshot.decode (s.snapshot createdAt).text = .ok image ∧
      (∀ listing, listing.Perm s.orders.toList →
        Snapshot.decode (Snapshot.listed s.cursor createdAt listing) = .ok image) ∧
      image.cursor = s.cursor ∧ image.createdAt = createdAt ∧
      ∀ hash, (Store.ofSnapshot image).get? hash = if hash = "" then none else (s.get? hash).map Order.restored := by
  have hfits : ∀ o ∈ s.orders.toList, o.2.Fits 123 := by
    intro o ho
    exact hdepth o.1 o.2 (Std.ExtTreeMap.mem_toList_iff_getElem?_eq_some.1 ho)
  have hlisted : ∀ listing, listing.Perm s.orders.toList →
      Snapshot.decode (Snapshot.listed s.cursor createdAt listing) = .ok (s.restoredImage createdAt) := by
    intro listing hp
    rw [decode_listed hlossless createdAt hp, if_pos hfits]
  refine ⟨s.restoredImage createdAt, ?_, hlisted, rfl, rfl, get?_ofSnapshot_restoredImage hhash createdAt⟩
  rw [Snapshot.text_eq_listed]
  exact hlisted _ (List.Perm.refl _)

end Store

/-- an order with a quote, a line break and an accent in its hash, whose on-chain data says nothing -/
def Order.accented : Order where
  hash := "a\"\né"
  bookName := "zrx"
  offChainData := .object [("k\\", .array [.text "\t", .number (.whole ⟨-5, by decide, by decide⟩)])]
  onChainData := some ⟨.null, 3, 1180591620717411303424⟩

/-- that order, and one without a hash -/
def Store.accented : Store where
  orders := .ofList [("", { hash := "" }), (Order.accented.hash, Order.accented)]
  cursor := ⟨5, 1⟩

theorem Store.decode_snapshot_text_accented :
    ∃ image : Snapshot, Snapshot.decode (Store.accented.snapshot 7).text = .ok image ∧ image.cursor = ⟨5, 1⟩ ∧
      (Store.ofSnapshot image).get? Order.accented.hash = some { Order.accented with onChainData := none } ∧
      (Store.ofSnapshot image).get? "" = none := by
  have hget : ∀ hash o, Store.accented.get? hash = some o ↔
      (hash, o) ∈ [("", { hash := "" }), (Order.accented.hash, Order.accented)] :=
    OrderMap.getElem?_ofList (by simp [OrderMap.Distinct, Order.accented])
  have hcanonical : Order.accented.offChainData.Canonical := by
    refine .object (List.pairwise_singleton _ _) (List.forall_mem_singleton.2 (.array ?_))
    exact List.forall_mem_cons.2 ⟨.text _, List.forall_mem_singleton.2 (.number _)⟩
  have hnoReal : Order.accented.offChainData.NoReal := by
    refine .object (List.forall_mem_singleton.2 (.array ?_))
    exact List.forall_mem_cons.2 ⟨.text _, List.forall_mem_singleton.2 (.whole _)⟩
  have horders : ∀ hash o, Store.accented.get? hash = some o → o.hash = hash ∧ o.Lossless ∧
      o.offChainData.depth ≤ 124 ∧ ∀ d ∈ o.onChainData, d.orderInfo.depth ≤ 123 := by
    intro hash o ho
    rcases List.mem_pair.1 ((hget hash o).1 ho) with h | h <;> cases h
    · exact ⟨rfl, ⟨⟨.null, .null⟩, by simp⟩, by decide, by simp⟩
    · refine ⟨rfl, ⟨⟨hcanonical, hnoReal⟩, ?_⟩, by decide, ?_⟩
      · rintro d ⟨⟩
        exact ⟨.null, .null⟩
      · rintro d ⟨⟩
        exact Nat.zero_le _
  obtain ⟨image, htext, -, hcursor, -, hrestored⟩ := Store.decode_snapshot_text Store.accented 7
    (fun hash o ho => (horders hash o ho).1) (fun hash o ho => (horders hash o ho).2.1)
    (fun hash o ho => (horders hash o ho).2.2)
  refine ⟨image, htext, hcursor, ?_, ?_⟩
  · rw [hrestored, if_neg (by decide), (hget _ Order.accented).2 (by simp)]
    rfl
  · rw [hrestored, if_pos rfl]

end ReplicatedOrders

import IngestKit.Checkout.Client

/-! The body of a 202 as the collector writes it, read by the client. -/
namespace IngestKit.Checkout
open Json
open Python (Object Loader Legible Readable)

/-- The members of the answer, in the order of their names. -/
def acceptedMembers (ids : List Bytes) (requestID : Bytes) : List (Bytes × Value) :=
  [(Member.eventIDs, marshalSlice (fun id => .string (marshalString id)) (some ids)),
    (Member.requestID, .string (marshalString requestID)),
    (Member.status, .string (marshalString acceptedText))]

/-- `fiber.Map{"status": "accepted", "event_ids": ids, "request_id": …}` as JSON. -/
def acceptedBody (ids : List Bytes) (requestID : Bytes) : Bytes :=
  (marshalMap (acceptedMembers ids requestID)).print

theorem marshalSlice_eq_arrayOf {α : Type} (f : α → Value) (as : List α) :
    marshalSlice f (some as) = Python.arrayOf (as.map f) := by
  cases as with
  | nil => rfl
  | cons a as => rfl

theorem ofValue_ids {ids : List Bytes} (h : ∀ id ∈ ids, Utf8.valid id = true) :
    Object.ofValue (marshalSlice (fun id => .string (marshalString id)) (some ids)) =
      some (.list (ids.map .str)) := by
  have hmap : (ids.map fun id => Value.string (marshalString id)).mapM Object.ofValue =
      some (ids.map .str) := by
    induction ids with
    | nil => rfl
    | cons id ids ih =>
      obtain ⟨hid, hids⟩ := List.forall_mem_cons.mp h
      rw [List.map_cons, List.mapM_cons, Object.ofValue, unquote_marshalString,
        Utf8.coerce_of_valid hid, ih hids]
      rfl
  rw [marshalSlice_eq_arrayOf, Object.ofValue_arrayOf, hmap, Option.map_some]

theorem readable_acceptedBody (ids : List Bytes) (requestID : Bytes) :
    Readable (marshalMap (acceptedMembers ids requestID)) := by
  have hstring : ∀ b, Legible (Value.string (marshalString b)).strings
      (Value.string (marshalString b)).numbers := fun b =>
    ⟨List.forall_mem_singleton.mpr ⟨_, denotes_marshalString b⟩, nofun⟩
  have hids : Legible (marshalSlice (fun id => .string (marshalString id)) (some ids)).strings
      (marshalSlice (fun id => .string (marshalString id)) (some ids)).numbers := by
    rw [marshalSlice_eq_arrayOf]
    exact Object.legible_arrayOf (List.forall_mem_map.mpr fun id _ => hstring id)
  constructor
  · apply Object.legible_marshalObject
    rw [List.forall_mem_map]
    have hvalues : ∀ m ∈ acceptedMembers ids requestID, Legible m.2.strings m.2.numbers := by
      simp only [acceptedMembers, List.forall_mem_cons]
      exact ⟨hids, hstring _, hstring _, nofun⟩
    intro m hm
    have hvalue := hvalues m hm
    exact ⟨List.forall_mem_cons.mpr ⟨⟨_, denotes_marshalString m.1⟩, hvalue.1⟩, hvalue.2⟩
  · have hdepth : ∀ m ∈ acceptedMembers ids requestID, m.2.depth ≤ 1 := by
      simp only [acceptedMembers, List.forall_mem_cons]
      exact ⟨depth_marshalSlice_le (fun _ => Nat.le_refl 0) _, Nat.zero_le _, Nat.zero_le _, nofun⟩
    exact (depth_marshalMap_le hdepth).trans (by decide)

theorem loads_acceptedBody (J : Loader) {ids : List Bytes} (h : ∀ id ∈ ids, Utf8.valid id = true)
    (requestID : Bytes) : J.loads (acceptedBody ids requestID) =
      some (.dict [(Member.eventIDs, .list (ids.map .str)),
        (Member.requestID, .str (Utf8.coerce requestID)), (Member.status, .str acceptedText)]) := by
  have hprint : acceptedBody ids requestID =
      Doc.print ⟨[], marshalMap (acceptedMembers ids requestID), []⟩ := by
    simp [Doc.print, Blank.print, acceptedBody]
  have hname : ∀ n ∈ [Member.eventIDs, Member.requestID, Member.status],
      (marshalString n).unquote = n := by
    intro n hn
    rw [unquote_marshalString]
    exact Utf8.coerce_of_valid ((by decide +kernel : ∀ n ∈ [Member.eventIDs, Member.requestID,
      Member.status], Utf8.valid n = true) n hn)
  simp only [List.forall_mem_cons, List.not_mem_nil, false_implies, implies_true, and_true] at hname
  obtain ⟨hids, hrequest, hstatus⟩ := hname
  have haccepted : (marshalString acceptedText).unquote = acceptedText := by
    rw [unquote_marshalString]
    exact Utf8.coerce_of_valid (by decide +kernel)
  have hmembers : ((acceptedMembers ids requestID).map fun e =>
      ((⟨[], marshalString e.1, [], []⟩ : Label), e.2)).mapM Object.ofMember =
        some [(Member.eventIDs, .list (ids.map .str)),
          (Member.requestID, .str (Utf8.coerce requestID)),
          (Member.status, .str acceptedText)] := by
    simp only [acceptedMembers, List.map_cons, List.map_nil, List.mapM_cons, List.mapM_nil,
      Object.ofMember, ofValue_ids h, Object.ofValue, hids, hrequest, hstatus, haccepted,
      unquote_marshalString, Option.map_some]
    rfl
  rw [hprint]
  apply J.reads _ _ (readable_acceptedBody ids requestID)
  rw [marshalMap, Object.ofValue_marshalObject, hmembers, Option.map_some, dict_of_nodup]
  exact (by decide +kernel : [Member.eventIDs, Member.requestID, Member.status].Nodup)

theorem mapM_str (ids : List Bytes) : (ids.map Object.str).mapM str? = some ids := by
  induction ids with
  | nil => rfl
  | cons id ids ih =>
    rw [List.map_cons, List.mapM_cons, ih]
    rfl

/-- The client takes the collector's answer for an acknowledgement exactly if it names the expected
identifiers and is not too long to be read. -/
theorem acknowledges_acceptedBody (J : Loader) {ids : List Bytes}
    (h : ∀ id ∈ ids, Utf8.valid id = true) (expected : List Bytes) (requestID : Bytes) :
    acknowledges J expected (acceptedBody ids requestID) = true ↔
      (acceptedBody ids requestID).length ≤ 65536 ∧ ids = expected := by
  have hlength : ((acceptedBody ids requestID).take 65537).length ≤ 65536 ↔
      (acceptedBody ids requestID).length ≤ 65536 := by
    rw [List.length_take]
    omega
  unfold acknowledges
  by_cases hsize : (acceptedBody ids requestID).length ≤ 65536
  · have htake : (acceptedBody ids requestID).take 65537 = acceptedBody ids requestID :=
      List.take_of_length_le (by omega)
    have hlookup : ∀ a b c : Object, [(Member.eventIDs, a), (Member.requestID, b),
        (Member.status, c)].lookup Member.status = some c := fun _ _ _ => rfl
    rw [if_pos (hlength.mpr hsize), htake, loads_acceptedBody J h]
    simp only [List.lookup_cons_self, hlookup, isStrings, isString, mapM_str, beq_self_eq_true,
      Bool.and_true, beq_iff_eq, Option.some.injEq, hsize, true_and]
  · rw [if_neg (mt hlength.mp hsize)]
    simp [hsize]

end IngestKit.Checkout

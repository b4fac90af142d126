import IngestKit.Event.RoundTrip
import IngestKit.Json.Marshal
import Mathlib.Data.List.Forall2

/-! A batch against its events taken one by one: the body is decoded as a whole, and each of its
elements again by itself. -/
namespace IngestKit.Event
open Json

/-- The body `{"events":[…]}` with these elements. -/
def batchBody (elements : List Bytes) : Bytes :=
  0x7b :: (memberText Name.events (0x5b :: (joinCommas elements ++ [0x5d])) ++ [0x7d])

/-- The tree of the body. -/
def batchValue (v : Value) (vs : List Value) : Value :=
  .object (.one (.plain Name.events) (.array (.ofList v vs)) [])

theorem print_ofList (v : Value) (vs : List Value) :
    (Elems.ofList v vs).print = joinCommas ((v :: vs).map Value.print) := by
  induction vs generalizing v with
  | nil => simp [Elems.ofList, Elems.print, Blank.print, joinCommas]
  | cons w ws ih => simp [Elems.ofList, Elems.print, Blank.print, joinCommas, ih]

theorem strings_ofList (v : Value) (vs : List Value) :
    (Elems.ofList v vs).strings = (v :: vs).flatMap Value.strings := by
  induction vs generalizing v with
  | nil => simp [Elems.ofList, Elems.strings]
  | cons w ws ih =>
    rw [Elems.ofList, Elems.strings, ih]
    rfl

theorem print_batchValue (v : Value) (vs : List Value) :
    (batchValue v vs).print = batchBody ((v :: vs).map Value.print) := by
  have hname : (Str.plain Name.events).body = Name.events := Str.body_plain (by decide +kernel)
  simp [batchValue, Value.print, Members.print, Label.plain, Label.print, Str.print, hname,
    print_ofList, batchBody, memberText, Blank.print]

theorem validUnicodeJSON_batchBody (v : Value) (vs : List Value) :
    validUnicodeJSON (batchBody ((v :: vs).map Value.print)) = true ↔
      ∀ w ∈ v :: vs, validUnicodeJSON w.print = true := by
  have hname : goodLiteral (Label.plain Name.events).key = true := by decide
  rw [← print_batchValue, validUnicodeJSON_print, batchValue, Value.strings, Members.strings,
    Value.strings, strings_ofList, List.all_cons, hname, Bool.true_and, List.all_flatMap,
    List.all_eq_true]
  simp only [validUnicodeJSON_print]

theorem depth_batchValue_le_iff (v : Value) (vs : List Value) (k : ℕ) :
    (batchValue v vs).depth ≤ k ↔ ∀ w ∈ v :: vs, w.depth + 2 ≤ k := by
  have hdepth : (batchValue v vs).depth = (Elems.ofList v vs).depth + 2 := rfl
  rw [hdepth]
  constructor
  · intro h w hw
    have := (Elems.depth_ofList_le_iff v vs).mp le_rfl w hw
    omega
  · intro h
    have hv := h v List.mem_cons_self
    have := (Elems.depth_ofList_le_iff (k := k - 2) v vs).mpr fun w hw => by
      have := h w hw
      omega
    omega

theorem decodeStruct_batchValue (v : Value) (vs : List Value) :
    decodeStruct .refuse batchFields (batchValue v vs) [] = some ((v :: vs).map Value.print) := by
  have hset : decodeStruct .refuse batchFields (batchValue v vs) [] =
      unmarshalList (.array (.ofList v vs)) := rfl
  rw [hset, unmarshalList, Elems.values_ofList]

section Codec
variable (U : UUID.Codec)

theorem decode_batchBody (v : Value) (vs : List Value) (events : List Bytes) :
    decode batchFields [] maxRequestBytes (batchBody ((v :: vs).map Value.print)) = .ok events ↔
      (batchBody ((v :: vs).map Value.print)).length ≤ maxRequestBytes ∧
      (∀ w ∈ v :: vs, validUnicodeJSON w.print = true) ∧
      (∀ w ∈ v :: vs, w.depth + 2 ≤ maxNestingDepth) ∧ events = (v :: vs).map Value.print := by
  rw [decode_ok_iff, validUnicodeJSON_batchBody]
  refine and_congr_right fun _ => and_congr_right fun _ => ?_
  rw [← print_batchValue]
  constructor
  · rintro ⟨d, hd, hs⟩
    obtain ⟨hprint, hdepth⟩ := (parse?_eq_some_iff _ _).mp hd
    have hsame := (parseDoc_eq_some_iff _ _).mpr hprint
    have htree := (parseDoc_eq_some_iff (batchValue v vs).print ⟨[], batchValue v vs, []⟩).mpr
      (by simp [Doc.print, Blank.print])
    rw [htree] at hsame
    obtain rfl := Option.some.inj hsame
    rw [decodeStruct_batchValue] at hs
    exact ⟨(depth_batchValue_le_iff v vs _).mp hdepth, (Option.some.inj hs).symm⟩
  · rintro ⟨hdepth, rfl⟩
    exact ⟨_, parse?_print ((depth_batchValue_le_iff v vs _).mpr hdepth),
      decodeStruct_batchValue v vs⟩

theorem decodeAll_eq_ok_iff (bs : List Bytes) (is : List Input) :
    decodeAll U bs = .ok is ↔ List.Forall₂ (fun b i => decodeInput U b = .ok i) bs is := by
  induction bs generalizing is with
  | nil =>
    rw [decodeAll, List.forall₂_nil_left_iff, Except.ok.injEq]
    exact eq_comm
  | cons b bs ih =>
    rw [decodeAll, List.forall₂_cons_left_iff]
    cases hb : decodeInput U b with
    | error e => simp
    | ok i =>
      cases hall : decodeAll U bs with
      | error e =>
        have hnone : ∀ js, ¬List.Forall₂ (fun b i => decodeInput U b = .ok i) bs js := by
          intro js h
          rw [← ih, hall] at h
          cases h
        simp [hnone]
      | ok js =>
        have hjs : ∀ ks, List.Forall₂ (fun b i => decodeInput U b = .ok i) bs ks ↔ js = ks := by
          intro ks
          rw [← ih, hall, Except.ok.injEq]
        constructor
        · intro h
          exact ⟨i, js, rfl, (hjs js).mpr rfl, (Except.ok.inj h).symm⟩
        · rintro ⟨i', ks, hi, hks, rfl⟩
          rw [Except.ok.inj hi, (hjs ks).mp hks]

theorem decodeInput_of_decodeAll {bs : List Bytes} {is : List Input}
    (h : decodeAll U bs = .ok is) : ∀ b ∈ bs, ∃ i, decodeInput U b = .ok i := by
  rw [decodeAll_eq_ok_iff] at h
  induction h with
  | nil => simp
  | cons hi _ ih => exact List.forall_mem_cons.mpr ⟨⟨_, hi⟩, ih⟩

theorem validUnicodeJSON_of_decodeInput {b : Bytes} {i : Input} (h : decodeInput U b = .ok i) :
    validUnicodeJSON b = true := by
  unfold decodeInput at h
  split at h
  · cases h
  next hd => exact ((decode_ok_iff _ _ _ _ _).mp hd).2.1

theorem of_decodeBatch_batchBody {v : Value} {vs : List Value} {is : List Input}
    (h : decodeBatch U (batchBody ((v :: vs).map Value.print)) = .ok is) :
    (∀ w ∈ v :: vs, w.depth + 2 ≤ maxNestingDepth) ∧
      decodeAll U ((v :: vs).map Value.print) = .ok is := by
  unfold decodeBatch at h
  split at h
  · cases h
  next events hd =>
    obtain ⟨-, -, hdepth, rfl⟩ := (decode_batchBody v vs events).mp hd
    split_ifs at h
    exact ⟨hdepth, h⟩

/-- A batch is decoded exactly if its events are, one by one, and none is nested so deeply that
the two levels around it pass the limit of the decoder; the inputs are then those of the events. -/
theorem decodeBatch_ok_iff_decodeInput (vs : List Value) (hpos : 1 ≤ vs.length)
    (hcount : vs.length ≤ maxBatchEvents)
    (hbody : (batchBody (vs.map Value.print)).length ≤ maxRequestBytes) (is : List Input) :
    decodeBatch U (batchBody (vs.map Value.print)) = .ok is ↔
      (∀ v ∈ vs, v.depth + 2 ≤ maxNestingDepth) ∧
        List.Forall₂ (fun v i => decodeInput U v.print = .ok i) vs is := by
  obtain ⟨v, vs, rfl⟩ := List.exists_cons_of_length_pos hpos
  have hsize : ¬(((v :: vs).map Value.print).length = 0 ∨
      ((v :: vs).map Value.print).length > maxBatchEvents) := by
    rw [List.length_map]
    omega
  have hall : List.Forall₂ (fun v i => decodeInput U v.print = .ok i) (v :: vs) is ↔
      decodeAll U ((v :: vs).map Value.print) = .ok is := by
    rw [decodeAll_eq_ok_iff, List.forall₂_map_left_iff]
  rw [hall]
  refine ⟨of_decodeBatch_batchBody U, ?_⟩
  rintro ⟨hdepth, hall⟩
  have hunicode : ∀ w ∈ v :: vs, validUnicodeJSON w.print = true := by
    intro w hw
    obtain ⟨i, hi⟩ := decodeInput_of_decodeAll U hall _ (List.mem_map_of_mem hw)
    exact validUnicodeJSON_of_decodeInput U hi
  have hd := (decode_batchBody v vs _).mpr ⟨hbody, hunicode, hdepth, rfl⟩
  rw [decodeBatch, hd]
  exact (if_neg hsize).trans hall

end Codec

/-- Arrays nested `k` deep around an empty one. -/
def nest : ℕ → Value
  | 0 => .emptyArray []
  | k + 1 => .array (.one [] (nest k) [])

theorem depth_nest (k : ℕ) : (nest k).depth = k + 1 := by
  induction k with
  | zero => rfl
  | succ k ih => rw [nest, Value.depth, Elems.depth, ih]

theorem strings_nest (k : ℕ) : (nest k).strings = [] := by
  induction k with
  | zero => rfl
  | succ k ih => rw [nest, Value.strings, Elems.strings, ih]

theorem length_print_nest (k : ℕ) : (nest k).print.length = 2 * (k + 1) := by
  induction k with
  | zero => rfl
  | succ k ih =>
    simp only [nest, Value.print, Elems.print, Blank.print, List.map_nil, List.nil_append,
      List.append_nil, List.length_cons, List.length_append, List.length_nil, ih]
    omega

/-- An order with an empty payload. -/
def plainMembers : Members :=
  .ofList (.plain Name.eventID, .string (.plain orderID.string))
    [(.plain Name.eventType, .string (.plain orderType)),
      (.plain Name.occurredAt, .string (.plain (ascii ['2', '0', '2', '6', '-', '1', '1', '-', '0',
        '3', 'T', '0', '0', ':', '0', '0', ':', '0', '0', 'Z']))),
      (.plain Name.payload, .emptyObject [])]

/-- The same order, where a nested array precedes the payload under its name. -/
def nestedOrder (k : ℕ) : Value := .object (.more (.plain Name.payload) (nest k) [] plainMembers)

def plainInput : Input := ⟨orderID, orderType, midnight 0, [0x7b, 0x7d]⟩

theorem depth_nestedOrder (k : ℕ) : (nestedOrder k).depth = k + 2 := by
  have hrest : plainMembers.depth = 1 := by decide
  rw [nestedOrder, Value.depth, Members.depth, depth_nest, hrest]
  omega

theorem length_print_nestedOrder (k : ℕ) : (nestedOrder k).print.length = 2 * k + 135 := by
  have hlabel : (Label.plain Name.payload).print.length = 10 := by decide
  have hrest : plainMembers.print.length = 120 := by decide +kernel
  simp only [nestedOrder, Value.print, Members.print, Blank.print, List.map_nil, List.nil_append,
    List.length_cons, List.length_append, List.length_nil, length_print_nest, hlabel, hrest]
  omega

theorem decodeInput_nestedOrder {k : ℕ} (hk : k + 2 ≤ maxNestingDepth) :
    decodeInput UUID.standard (nestedOrder k).print = .ok plainInput := by
  have hlength : (nestedOrder k).print.length ≤ maxEventBytes := by
    rw [length_print_nestedOrder]
    simp only [maxNestingDepth, maxEventBytes] at hk ⊢
    omega
  have hunicode : validUnicodeJSON (nestedOrder k).print = true := by
    have hrest : plainMembers.strings.all goodLiteral = true := by decide +kernel
    have hlabel : goodLiteral (Label.plain Name.payload).key = true := by decide
    rw [validUnicodeJSON_print, nestedOrder, Value.strings, Members.strings, strings_nest,
      List.nil_append, List.all_cons, hlabel, hrest, Bool.true_and]
  have hparse := parse?_print ((depth_nestedOrder k).trans_le hk)
  have hfields : decodeStruct .refuse (inputFields UUID.standard id fun i _ => i) (nestedOrder k)
      Input.zero = some plainInput := by
    rfl
  have hdecode := (decode_ok_iff _ _ _ _ _).mpr ⟨hlength, hunicode, _, hparse, hfields⟩
  have hvalid : validate plainInput = .ok () := by decide +kernel
  rw [decodeInput, hdecode]
  dsimp only
  rw [hvalid]

theorem length_batchBody (elements : List Bytes) :
    (batchBody elements).length = (joinCommas elements).length + 13 := by
  have hname : Name.events.length = 6 := rfl
  simp only [batchBody, memberText, List.length_cons, List.length_append, List.length_nil, hname]
  omega

def refundID : UUID := ⟨[0, 0, 0, 0, 0, 0, 0x40, 0, 0x80, 0, 0, 0, 0, 0, 0, 2], by decide⟩

def refundType : Bytes := ascii ['r', 'e', 'f', 'u', 'n', 'd']

/-- A refund with the payload `{"ok":true}`. -/
def refund : Value :=
  .object (.ofList (.plain Name.eventType, .string (.plain refundType))
    [(.plain Name.eventID, .string (.plain refundID.string)),
      (.plain Name.payload, .object (.one (.plain (ascii ['o', 'k'])) (.bool true) [])),
      (.plain Name.occurredAt, .string (.plain (ascii ['2', '0', '2', '6', '-', '1', '1', '-', '0',
        '3', 'T', '0', '0', ':', '0', '0', ':', '0', '0', 'Z'])))])

def refundInput : Input :=
  ⟨refundID, refundType, midnight 0,
    0x7b :: (memberText (ascii ['o', 'k']) (ascii ['t', 'r', 'u', 'e']) ++ [0x7d])⟩

/-- Two orders, one of them nested as deeply as a batch allows, and a refund. -/
def mixedBatch : List Value := [nestedOrder 9996, refund, nestedOrder 0]

theorem decodeBatch_ok_iff_decodeInput_mixed :
    (batchBody (mixedBatch.map Value.print)).length ≤ maxRequestBytes ∧
      decodeBatch UUID.standard (batchBody (mixedBatch.map Value.print)) =
        .ok [plainInput, refundInput, plainInput] := by
  have hrefund : refund.print.length ≤ 200 := by decide +kernel
  have hbody : (batchBody (mixedBatch.map Value.print)).length ≤ maxRequestBytes := by
    have hlimit : maxRequestBytes = 1048576 := rfl
    simp only [length_batchBody, mixedBatch, List.map_cons, List.map_nil, joinCommas,
      List.length_append, List.length_cons, length_print_nestedOrder]
    omega
  refine ⟨hbody, (decodeBatch_ok_iff_decodeInput UUID.standard mixedBatch (by decide) (by decide)
    hbody [plainInput, refundInput, plainInput]).mpr ⟨?_, ?_⟩⟩
  · intro v hv
    simp only [mixedBatch, List.mem_cons, List.not_mem_nil, or_false] at hv
    rcases hv with rfl | rfl | rfl
    · rw [depth_nestedOrder]
      decide
    · decide
    · rw [depth_nestedOrder]
      decide
  · have hsecond : decodeInput UUID.standard refund.print = .ok refundInput := by decide +kernel
    exact .cons (decodeInput_nestedOrder (by decide))
      (.cons hsecond (.cons (decodeInput_nestedOrder (by decide)) .nil))

/-- An event nested to the limit is accepted by itself and refused in a batch. -/
theorem nested_order_refused_in_batch :
    (batchBody ([nestedOrder 9998].map Value.print)).length ≤ maxRequestBytes ∧
      decodeInput UUID.standard (nestedOrder 9998).print = .ok plainInput ∧
      ∀ is, decodeBatch UUID.standard (batchBody ([nestedOrder 9998].map Value.print)) ≠ .ok is := by
  refine ⟨?_, decodeInput_nestedOrder (by decide), ?_⟩
  · rw [length_batchBody, List.map_singleton, joinCommas, length_print_nestedOrder]
    decide
  · intro is h
    have hdepth := (of_decodeBatch_batchBody UUID.standard h).1 _ List.mem_cons_self
    rw [depth_nestedOrder] at hdepth
    exact absurd hdepth (by decide)

end IngestKit.Event

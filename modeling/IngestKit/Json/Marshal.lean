import IngestKit.Json.Decode
import IngestKit.Text.Base64
import Mathlib.Data.Nat.Log

/-! The reflective encoder and its decoder: HTML characters are escaped, byte slices are base64, and
absent slices are null. -/
namespace IngestKit.Json

/-- `<`, `>` and `&`. -/
def escapedHTML (c : Char) : Bool :=
  c.val.toNat = 0x3c || c.val.toNat = 0x3e || c.val.toNat = 0x26

/-- The content of a string literal; malformed bytes become U+FFFD. -/
def marshalString (b : Bytes) : Str :=
  (Utf8.runes b).flatMap fun
    | some c => if escapedHTML c then [.uni (.ofNat c.val.toNat)] else quoteChar c
    | none => [.uni (.ofNat 0xfffd)]

private theorem denotes_unit {v : ℕ} (hv : v < 0x10000) (hs : v < 0xd800 ∨ 0xdfff < v) {s : Str}
    {cs : List Char} (h : Denotes s cs) : Denotes (.uni (.ofNat v) :: s) (Char.ofNat v :: cs) := by
  have hvalue := CodeUnit.value_ofNat hv
  have hunit := Denotes.unit (u := .ofNat v)
    (by rw [hvalue]; simp only [isHigh, Bool.and_eq_false_iff, decide_eq_false_iff_not]; omega)
    (by rw [hvalue]; simp only [isLow, Bool.and_eq_false_iff, decide_eq_false_iff_not]; omega) h
  rwa [hvalue] at hunit

theorem denotes_marshalString (b : Bytes) : Denotes (marshalString b)
    ((Utf8.runes b).map fun c => c.getD (Char.ofNat 0xfffd)) := by
  rw [marshalString]
  induction Utf8.runes b with
  | nil => exact .nil
  | cons c cs ih =>
    rw [List.flatMap_cons, List.map_cons]
    cases c with
    | none => exact denotes_unit (by decide) (by decide) ih
    | some c =>
      dsimp only [Option.getD_some]
      split_ifs with hc
      · have hlt : c.val.toNat < 0x80 := by
          simp only [escapedHTML, Bool.or_eq_true, decide_eq_true_eq] at hc
          omega
        have hunit := denotes_unit (v := c.val.toNat) (by omega) (by omega) ih
        rwa [show Char.ofNat c.val.toNat = c from Char.ofNat_toNat c] at hunit
      · exact denotes_quoteChar c ih

/-- A string comes back with its malformed bytes replaced. -/
theorem unquote_marshalString (b : Bytes) : (marshalString b).unquote = Utf8.coerce b := by
  rw [(denotes_marshalString b).unquote, Utf8.coerce_eq_encode]

theorem length_marshalString {b : Bytes} (h : Utf8.valid b = true) :
    (marshalString b).body.length ≤ 6 * b.length := by
  obtain ⟨cs, rfl⟩ := (Utf8.valid_iff b).mp h
  rw [marshalString, flatMap_runes_encode]
  refine length_flatMap_le (fun c => ?_) cs
  dsimp only
  split_ifs
  · exact length_unit_le c _
  · exact length_quoteChar_le c

/-- A natural number as a literal. -/
def IntPart.ofNat (n : ℕ) : IntPart :=
  if h : n = 0 then .zero
  else .pos ⟨n / 10 ^ Nat.log 10 n - 1, by
      have hlt : n / 10 ^ Nat.log 10 n < 10 := by
        rw [Nat.div_lt_iff_lt_mul (by positivity), mul_comm, ← pow_succ]
        exact Nat.lt_pow_succ_log_self (by decide) n
      omega⟩ (fixedDigits (Nat.log 10 n) (n % 10 ^ Nat.log 10 n))

theorem IntPart.digitsVal_ofNat (n : ℕ) : digitsVal (IntPart.ofNat n).digits = n := by
  rw [IntPart.ofNat]
  split_ifs with h
  · rw [h]
    rfl
  · have hpos : 1 ≤ n / 10 ^ Nat.log 10 n := by
      rw [Nat.le_div_iff_mul_le (by positivity), one_mul]
      exact Nat.pow_log_le_self 10 h
    have hmod := Nat.div_add_mod n (10 ^ Nat.log 10 n)
    rw [IntPart.digits, digitsVal_cons, length_fixedDigits,
      digitsVal_fixedDigits _ _ (Nat.mod_lt _ (by positivity))]
    simp only [Fin.val_succ, Nat.sub_add_cancel hpos]
    rw [mul_comm]
    exact hmod

def marshalInt (z : ℤ) : Value := .number ⟨z < 0, .ofNat z.natAbs, none, none⟩

/-- An integer field of a type with values from `lo` to `hi`; a fraction or an exponent is a type
error. -/
def unmarshalInt (lo hi : ℤ) (v : Value) (old : ℤ) : Option ℤ :=
  match v with
  | .null => some old
  | .number ⟨negative, int, none, none⟩ =>
    let z : ℤ := if negative then -(digitsVal int.digits : ℤ) else digitsVal int.digits
    if lo ≤ z ∧ z ≤ hi then some z else none
  | _ => none

theorem unmarshalInt_marshalInt {lo hi z : ℤ} (hlo : lo ≤ z) (hhi : z ≤ hi) (old : ℤ) :
    unmarshalInt lo hi (marshalInt z) old = some z := by
  have hz : (if decide (z < 0) = true then -(z.natAbs : ℤ) else z.natAbs) = z := by
    split_ifs with h
    · rw [decide_eq_true_eq] at h
      omega
    · rw [decide_eq_true_eq] at h
      omega
  rw [marshalInt, unmarshalInt, IntPart.digitsVal_ofNat, hz, if_pos ⟨hlo, hhi⟩]

/-- A byte slice; `none` is nil. -/
def marshalBytes : Option Bytes → Value
  | none => .null
  | some b => .string (Str.plain (Base64.encode b))

def unmarshalBytes : Value → Option (Option Bytes)
  | .null => some none
  | .string s => (Base64.decode s.unquote).map some
  | _ => none

private theorem plainByte_base64 (b : Bytes) : ∀ x ∈ Base64.encode b, PlainByte x := by
  intro x hx
  rcases Base64.textByte_encode b x hx with rfl | ⟨n, rfl⟩
  · decide
  · obtain ⟨-, -, -, hlow, hhigh, hquote, hslash, -⟩ := n.byte_plain
    exact ⟨hlow, hhigh, hquote, hslash⟩

theorem unmarshalBytes_marshalBytes (b : Option Bytes) :
    unmarshalBytes (marshalBytes b) = some b := by
  cases b with
  | none => rfl
  | some b =>
    rw [marshalBytes, unmarshalBytes, Str.unquote_plain (plainByte_base64 b), Base64.decode_encode,
      Option.map_some]

section Slices
variable {α β : Type}

def Elems.ofList (v : Value) : List Value → Elems
  | [] => .one [] v []
  | w :: ws => .more [] v [] (ofList w ws)

theorem Elems.values_ofList (v : Value) (vs : List Value) :
    (Elems.ofList v vs).values = v :: vs := by
  induction vs generalizing v with
  | nil => rfl
  | cons w ws ih => rw [Elems.ofList, Elems.values, ih]

def marshalSlice (f : α → Value) : Option (List α) → Value
  | none => .null
  | some [] => .emptyArray []
  | some (a :: as) => .array (.ofList (f a) (as.map f))

def unmarshalSlice (g : Value → Option β) : Value → Option (Option (List β))
  | .null => some none
  | .emptyArray _ => some (some [])
  | .array es => (es.values.mapM g).map some
  | _ => none

theorem unmarshalSlice_marshalSlice {f : α → Value} {g : Value → Option β} {k : α → β}
    (h : ∀ a, g (f a) = some (k a)) (as : Option (List α)) :
    unmarshalSlice g (marshalSlice f as) = some (as.map (List.map k)) := by
  have hall : ∀ as : List α, (as.map f).mapM g = some (as.map k) := by
    intro as
    induction as with
    | nil => rfl
    | cons a as ih => simp [h, ih]
  match as with
  | none => rfl
  | some [] => rfl
  | some (a :: as) =>
    rw [marshalSlice, unmarshalSlice, Elems.values_ofList]
    exact congrArg (Option.map some) (hall (a :: as))

theorem Elems.depth_ofList_le_iff {k : ℕ} (v : Value) (vs : List Value) :
    (Elems.ofList v vs).depth ≤ k ↔ ∀ w ∈ v :: vs, w.depth ≤ k := by
  induction vs generalizing v with
  | nil => simp [Elems.ofList, Elems.depth]
  | cons w ws ih => simp only [Elems.ofList, Elems.depth, max_le_iff, ih, List.forall_mem_cons]

theorem depth_marshalSlice_le {f : α → Value} {k : ℕ} (h : ∀ a, (f a).depth ≤ k)
    (as : Option (List α)) : (marshalSlice f as).depth ≤ k + 1 := by
  match as with
  | none => exact Nat.zero_le _
  | some [] => exact Nat.succ_le_succ (Nat.zero_le k)
  | some (a :: as) =>
    refine Nat.succ_le_succ ((Elems.depth_ofList_le_iff _ _).mpr fun w hw => ?_)
    rw [← List.map_cons] at hw
    obtain ⟨a, -, rfl⟩ := List.mem_map.mp hw
    exact h a

end Slices

section Structs
variable {σ : Type}

/-- A field that can also be written. -/
structure FieldCodec (σ : Type) extends FieldSpec σ where
  get : σ → Value

def Members.ofList (m : Label × Value) : List (Label × Value) → Members
  | [] => .one m.1 m.2 []
  | n :: ns => .more m.1 m.2 [] (ofList n ns)

theorem Members.depth_ofList_le {k : ℕ} (m : Label × Value) (ms : List (Label × Value))
    (h : ∀ n ∈ m :: ms, n.2.depth ≤ k) : (Members.ofList m ms).depth ≤ k := by
  induction ms generalizing m with
  | nil => exact h m List.mem_cons_self
  | cons n ns ih =>
    rw [Members.ofList, Members.depth]
    exact max_le (h m List.mem_cons_self) (ih n fun x hx => h x (List.mem_cons_of_mem m hx))

def marshalStruct (fs : List (FieldCodec σ)) (s : σ) : Value :=
  match fs.map fun f => (Label.plain f.name, f.get s) with
  | [] => .emptyObject []
  | m :: ms => .object (.ofList m ms)

theorem depth_marshalStruct_le {fs : List (FieldCodec σ)} {s : σ} {k : ℕ}
    (h : ∀ f ∈ fs, (f.get s).depth ≤ k) : (marshalStruct fs s).depth ≤ k + 1 := by
  have hall : ∀ n ∈ fs.map fun f => (Label.plain f.name, f.get s), n.2.depth ≤ k := by
    intro n hn
    obtain ⟨f, hf, rfl⟩ := List.mem_map.mp hn
    exact h f hf
  rw [marshalStruct]
  cases hm : fs.map fun f => (Label.plain f.name, f.get s) with
  | nil => simp [Value.depth]
  | cons m ms =>
    rw [hm] at hall
    exact Nat.succ_le_succ (Members.depth_ofList_le m ms hall)

/-- `json.Unmarshal` into a record. -/
def unmarshal (fs : List (FieldSpec σ)) (start : σ) (raw : Bytes) : Option σ :=
  match parse? raw with
  | none => none
  | some d => decodeStruct .ignore fs d.value start

theorem decodeMembers_ofList (unknown : Unknown) (fs : List (FieldSpec σ)) (m : Label × Value)
    (ms : List (Label × Value)) (s : σ) :
    decodeMembers unknown fs (.ofList m ms) s =
      (m :: ms).foldlM (fun s m => setMember unknown fs m.1 m.2 s) s := by
  induction ms generalizing m s with
  | nil =>
    rw [Members.ofList, decodeMembers, List.foldlM_cons]
    cases setMember unknown fs m.1 m.2 s <;> rfl
  | cons n ns ih =>
    rw [Members.ofList, decodeMembers, List.foldlM_cons]
    cases setMember unknown fs m.1 m.2 s with
    | none => rfl
    | some t => exact ih n t

/-- Reading a written record sets each field from its own value, in order. -/
theorem decodeStruct_marshalStruct (unknown : Unknown) {fs : List (FieldCodec σ)}
    (hnames : (fs.map fun f => f.name).Nodup) (hplain : ∀ f ∈ fs, ∀ x ∈ f.name, PlainByte x)
    (r s : σ) :
    decodeStruct unknown (fs.map FieldCodec.toFieldSpec) (marshalStruct fs r) s =
      fs.foldlM (fun s f => f.set (f.get r) s) s := by
  have hset : ∀ f ∈ fs, ∀ (v : Value) (s : σ),
      setMember unknown (fs.map FieldCodec.toFieldSpec) (.plain f.name) v s = f.set v s := by
    intro f hf
    exact setMember_plain (List.mem_map_of_mem (f := FieldCodec.toFieldSpec) hf)
      (by rw [List.map_map]; exact hnames) (hplain f hf)
  have hfold : decodeStruct unknown (fs.map FieldCodec.toFieldSpec) (marshalStruct fs r) s =
      (fs.map fun f => (Label.plain f.name, f.get r)).foldlM
        (fun s m => setMember unknown (fs.map FieldCodec.toFieldSpec) m.1 m.2 s) s := by
    rw [marshalStruct]
    cases fs.map fun f => (Label.plain f.name, f.get r) with
    | nil => rfl
    | cons m ms => exact decodeMembers_ofList unknown _ m ms s
  rw [hfold, List.foldlM_map]
  clear hfold hnames hplain
  generalize fs.map FieldCodec.toFieldSpec = specs at hset
  induction fs generalizing s with
  | nil => rfl
  | cons f fs ih =>
    rw [List.foldlM_cons, List.foldlM_cons, hset f List.mem_cons_self]
    cases f.set (f.get r) s with
    | none => rfl
    | some t => exact ih t fun g hg => hset g (List.mem_cons_of_mem f hg)

end Structs

end IngestKit.Json

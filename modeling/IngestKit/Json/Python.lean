import IngestKit.Json.Dict

/-! Python's `json` module: compact `dumps` that leaves text unescaped, and what is assumed of
`loads`. Text is held as UTF-8, in which an unpaired surrogate makes it malformed. -/
namespace IngestKit.Json.Python

/-- What `dumps` writes and `loads` returns; dictionaries keep the order of insertion. A float is
given by the text of its `repr`, unless it is infinite or not a number. -/
inductive Object
  | null
  | bool (b : Bool)
  | int (n : ℤ)
  | float (text : Option Number)
  | str (text : Bytes)
  | list (items : List Object)
  | dict (entries : List (Bytes × Object))

/-- With `ensure_ascii=False` only quotes, backslashes and controls are escaped. -/
def quoteChar (c : Char) : Str :=
  match shortEscape? c.val.toNat with
  | some e => [.esc e]
  | none =>
    if h : 0x20 ≤ c.val.toNat ∧ c.val.toNat ≠ 0x22 ∧ c.val.toNat ≠ 0x5c then
      (rawBytes c h).map .raw
    else [.uni (.ofNat c.val.toNat)]

def quote (text : Bytes) : Str := ((Utf8.runes text).filterMap id).flatMap quoteChar

def arrayOf : List Value → Value
  | [] => .emptyArray []
  | v :: vs => .array (.ofList v vs)

namespace Object

mutual
/-- The text `dumps` writes with the separators `,` and `:`, as a tree. -/
def tree : Object → Value
  | .null => .null
  | .bool b => .bool b
  | .int n => marshalInt n
  | .float text => text.elim .null .number
  | .str s => .string (quote s)
  | .list items => arrayOf (trees items)
  | .dict entries => marshalObject (members entries)

def trees : List Object → List Value
  | [] => []
  | o :: os => o.tree :: trees os

def members : List (Bytes × Object) → List (Label × Value)
  | [] => []
  | (key, o) :: es => (⟨[], quote key, [], []⟩, o.tree) :: members es
end

/-- The text that `dumps` writes for what is `encodable`. -/
def dumps (o : Object) : Bytes := o.tree.print

mutual
/-- With `allow_nan=False` a float must be finite, an integer has at most 4300 digits, and text must
be well formed to be encoded. -/
def encodable : Object → Bool
  | .int n => decide ((IntPart.ofNat n.natAbs).digits.length ≤ 4300)
  | .float text => text.isSome
  | .str s => Utf8.valid s
  | .list items => encodableItems items
  | .dict entries => encodableEntries entries
  | _ => true

def encodableItems : List Object → Bool
  | [] => true
  | o :: os => o.encodable && encodableItems os

def encodableEntries : List (Bytes × Object) → Bool
  | [] => true
  | (key, o) :: es => Utf8.valid key && o.encodable && encodableEntries es
end

mutual
/-- What a text without fractions and exponents stands for. -/
def ofValue : Value → Option Object
  | .null => some .null
  | .bool b => some (.bool b)
  | .number ⟨negative, part, none, none⟩ =>
    some (.int (if negative then -(digitsVal part.digits : ℤ) else digitsVal part.digits))
  | .number _ => none
  | .string s => some (.str s.unquote)
  | .emptyArray _ => some (.list [])
  | .array es => (ofElems es).map .list
  | .emptyObject _ => some (.dict [])
  | .object ms => (ofMembers ms).map fun es => .dict (Json.dict es)

def ofElems : Elems → Option (List Object)
  | .one _ v _ => (ofValue v).map ([·])
  | .more _ v _ rest => (ofValue v).bind fun o => (ofElems rest).map (o :: ·)

def ofMembers : Members → Option (List (Bytes × Object))
  | .one l v _ => (ofValue v).map fun o => [(l.key.unquote, o)]
  | .more l v _ rest => (ofValue v).bind fun o => (ofMembers rest).map ((l.key.unquote, o) :: ·)
end

mutual
/-- What can be encoded and has no floats, with no key twice in one dictionary. -/
def sound : Object → Bool
  | .int n => decide ((IntPart.ofNat n.natAbs).digits.length ≤ 4300)
  | .float _ => false
  | .str s => Utf8.valid s
  | .list items => soundItems items
  | .dict entries => decide (entries.map Prod.fst).Nodup && soundEntries entries
  | _ => true

def soundItems : List Object → Bool
  | [] => true
  | o :: os => o.sound && soundItems os

def soundEntries : List (Bytes × Object) → Bool
  | [] => true
  | (key, o) :: es => Utf8.valid key && o.sound && soundEntries es
end

end Object

/-- Literals that denote text, and integers of at most 4300 digits. -/
def Legible (strings : List Str) (numbers : List Number) : Prop :=
  (∀ s ∈ strings, ∃ cs, Denotes s cs) ∧ ∀ n ∈ numbers, n.int.digits.length ≤ 4300

theorem Legible.append {s t : List Str} {m n : List Number} (h : Legible s m)
    (h' : Legible t n) : Legible (s ++ t) (m ++ n) :=
  ⟨List.forall_mem_append.mpr ⟨h.1, h'.1⟩, List.forall_mem_append.mpr ⟨h.2, h'.2⟩⟩

structure Readable (v : Value) : Prop where
  legible : Legible v.strings v.numbers
  depth : v.depth ≤ 100

/-- `json.loads`, which refuses a text or reads it. Nothing is assumed of texts with fractions or
exponents, `NaN`, a byte order mark, another encoding, unpaired surrogates or deep nesting. -/
structure Loader where
  loads : Bytes → Option Object
  reads : ∀ (d : Doc) (o : Object), Readable d.value → Object.ofValue d.value = some o →
    loads d.print = some o

/-- The loader that refuses every other text. -/
def Loader.plain : Loader where
  loads raw := (parseDoc raw).bind fun d => Object.ofValue d.value
  reads d o _ ho := by
    have hparse : parseDoc d.print = some d := (parseDoc_eq_some_iff _ _).mpr rfl
    rw [hparse, Option.bind_some, ho]

section Literals

/-- It differs from the other encoder only for the separators U+2028 and U+2029. -/
theorem quoteChar_cases (c : Char) : quoteChar c = Json.quoteChar c ∨
    ∃ bs : List RawByte, quoteChar c = bs.map .raw ∧
      bs.map RawByte.byte = String.utf8EncodeChar c := by
  unfold quoteChar Json.quoteChar
  cases shortEscape? c.val.toNat with
  | some e => exact Or.inl rfl
  | none =>
    dsimp only
    split_ifs with h hs
    · exact Or.inr ⟨rawBytes c h, rfl, map_byte_rawBytes c h⟩
    · exact Or.inl rfl
    · exact Or.inl rfl

theorem quote_encode (cs : List Char) : quote (Utf8.encode cs) = cs.flatMap quoteChar := by
  have hrunes := Utf8.runes_encode_append cs []
  rw [List.append_nil, Utf8.runes_nil, List.append_nil] at hrunes
  have hfilter : (cs.map some).filterMap id = cs := by
    rw [List.filterMap_map]
    exact List.filterMap_some
  rw [quote, hrunes, hfilter]

theorem denotes_quote (cs : List Char) : Denotes (quote (Utf8.encode cs)) cs := by
  rw [quote_encode]
  induction cs with
  | nil => exact .nil
  | cons c cs ih =>
    rw [List.flatMap_cons]
    rcases quoteChar_cases c with hq | ⟨bs, hq, hb⟩
    · rw [hq]
      exact denotes_quoteChar c ih
    · rw [hq]
      exact .raw hb ih

theorem unquote_quote {b : Bytes} (h : Utf8.valid b = true) : (quote b).unquote = b := by
  obtain ⟨cs, rfl⟩ := (Utf8.valid_iff b).mp h
  exact (denotes_quote cs).unquote

theorem quoteChar_eq_raw {c : Char}
    (h : 0x20 ≤ c.val.toNat ∧ c.val.toNat ≠ 0x22 ∧ c.val.toNat ≠ 0x5c) :
    quoteChar c = (rawBytes c h).map .raw := by
  have hescape : shortEscape? c.val.toNat = none := by
    unfold shortEscape?
    repeat rw [if_neg (by omega)]
  rw [quoteChar, hescape]
  exact dif_pos h

theorem quoteChar_plain {x : UInt8} (h : PlainByte x) :
    quoteChar (Char.ofNat x.toNat) = [.raw ⟨x, h.1, h.2.2⟩] := by
  obtain ⟨hlow, hhigh, hquote, hslash⟩ := h
  have hvalue : (Char.ofNat x.toNat).val.toNat = x.toNat := Utf8.val_ofNat (Or.inl (by omega))
  have hne : x.toNat ≠ 0x22 ∧ x.toNat ≠ 0x5c :=
    ⟨fun heq => hquote (UInt8.toNat_inj.mp heq), fun heq => hslash (UInt8.toNat_inj.mp heq)⟩
  have hplain : 0x20 ≤ (Char.ofNat x.toNat).val.toNat ∧ (Char.ofNat x.toNat).val.toNat ≠ 0x22 ∧
      (Char.ofNat x.toNat).val.toNat ≠ 0x5c := by
    rw [hvalue]
    exact ⟨hlow, hne⟩
  have hbytes := map_byte_rawBytes (Char.ofNat x.toNat) hplain
  rw [Utf8.encodeChar_of_lt hhigh, UInt8.ofNat_toNat] at hbytes
  obtain ⟨r, hr, hbyte⟩ := List.map_eq_singleton_iff.mp hbytes
  rw [quoteChar_eq_raw hplain, hr, List.map_singleton]
  obtain ⟨byte, ok⟩ := r
  subst hbyte
  rfl

/-- Bytes that stand for themselves are left as they are. -/
theorem quote_eq_plain {b : Bytes} (h : ∀ x ∈ b, PlainByte x) : quote b = Str.plain b := by
  induction b with
  | nil => rfl
  | cons x b ih =>
    have hx := h x List.mem_cons_self
    have hraw : RawByte.ofByte? x = some ⟨x, hx.1, hx.2.2⟩ := dif_pos ⟨hx.1, hx.2.2⟩
    have hplain : Str.plain (x :: b) = .raw ⟨x, hx.1, hx.2.2⟩ :: Str.plain b := by
      rw [Str.plain, List.filterMap_cons_some hraw, List.map_cons, Str.plain]
    have hrunes : Utf8.runes (x :: b) = some (Char.ofNat x.toNat) :: Utf8.runes b := by
      have hchar : String.utf8EncodeChar (Char.ofNat x.toNat) = [x] := by
        rw [Utf8.encodeChar_of_lt hx.2.1, UInt8.ofNat_toNat]
      rw [← Utf8.runes_encodeChar_append, hchar, List.singleton_append]
    have hcons : quote (x :: b) = quoteChar (Char.ofNat x.toNat) ++ quote b := by
      rw [quote, hrunes]
      rfl
    rw [hcons, quoteChar_plain hx, hplain, ih fun y hy => h y (List.mem_cons_of_mem x hy),
      List.singleton_append]

theorem valid_body_quote {b : Bytes} (h : Utf8.valid b = true) :
    Utf8.valid (quote b).body = true := by
  obtain ⟨cs, rfl⟩ := (Utf8.valid_iff b).mp h
  exact (denotes_quote cs).valid_body

theorem paired_append {s : Str} (h : s.paired = true) (t : Str) : (s ++ t).paired = t.paired := by
  fun_induction Str.paired s with
  | case1 => rfl
  | case2 b s ih => exact ih h
  | case3 e s ih => exact ih h
  | case4 | case5 | case7 => cases h
  | case6 u hz hl hh w s ih =>
    rw [Bool.and_eq_true] at h
    rw [List.cons_append, List.cons_append, Str.paired.eq_def]
    simp only [hz, hl, hh, h.1, if_false, if_true, Bool.true_and, Bool.false_eq_true]
    exact ih h.2
  | case8 u s hz hl hh ih =>
    rw [List.cons_append, Str.paired.eq_def]
    simp only [hz, hl, hh, if_false, Bool.false_eq_true]
    exact ih h

/-- Text without NUL needs only nonzero escapes and no surrogates. -/
theorem paired_quote {cs : List Char} (h : Char.ofNat 0 ∉ cs) :
    (quote (Utf8.encode cs)).paired = true := by
  rw [quote_encode]
  induction cs with
  | nil => rfl
  | cons c cs ih =>
    rw [List.mem_cons, not_or] at h
    rw [List.flatMap_cons]
    rcases quoteChar_cases c with hq | ⟨bs, hq, -⟩
    · have hone : (Json.quoteChar c).paired = true := by
        have hsingle : (Json.quote (Utf8.encode [c])).paired = true :=
          Json.paired_quote (by simpa using h.1)
        rwa [quote_encode_cons, Utf8.encode_nil, Json.quote, Utf8.runes_nil, List.flatMap_nil,
          List.append_nil] at hsingle
      rw [hq, paired_append hone]
      exact ih h.2
    · rw [hq, paired_raw_append]
      exact ih h.2

theorem length_quote {b : Bytes} (h : Utf8.valid b = true) :
    (quote b).body.length ≤ 6 * b.length := by
  obtain ⟨cs, rfl⟩ := (Utf8.valid_iff b).mp h
  rw [quote_encode]
  refine length_flatMap_le (fun c => ?_) cs
  rcases quoteChar_cases c with hq | ⟨bs, hq, hb⟩
  · rw [hq]
    exact length_quoteChar_le c
  · rw [hq]
    exact length_raw_le hb

end Literals

namespace Object

theorem trees_eq_map (os : List Object) : trees os = os.map tree := by
  induction os with
  | nil => rfl
  | cons o os ih => rw [trees, ih, List.map_cons]

theorem ofElems_ofList (v : Value) (vs : List Value) :
    ofElems (.ofList v vs) = (v :: vs).mapM ofValue := by
  induction vs generalizing v with
  | nil =>
    rw [Elems.ofList, ofElems, List.mapM_cons, List.mapM_nil]
    cases ofValue v <;> rfl
  | cons w ws ih =>
    rw [Elems.ofList, ofElems, ih]
    generalize w :: ws = rest
    rw [List.mapM_cons]
    cases ofValue v with
    | none => rfl
    | some o => cases rest.mapM ofValue <;> rfl

def ofMember (m : Label × Value) : Option (Bytes × Object) :=
  (ofValue m.2).map fun o => (m.1.key.unquote, o)

theorem ofMembers_ofList (m : Label × Value) (ms : List (Label × Value)) :
    ofMembers (.ofList m ms) = (m :: ms).mapM ofMember := by
  induction ms generalizing m with
  | nil =>
    rw [Members.ofList, ofMembers, List.mapM_cons, List.mapM_nil, ofMember]
    cases ofValue m.2 <;> rfl
  | cons n ns ih =>
    rw [Members.ofList, ofMembers, ih]
    generalize n :: ns = rest
    rw [List.mapM_cons, ofMember]
    cases ofValue m.2 with
    | none => rfl
    | some o => cases rest.mapM ofMember <;> rfl

theorem ofValue_arrayOf (vs : List Value) :
    ofValue (arrayOf vs) = (vs.mapM ofValue).map .list := by
  cases vs with
  | nil => rfl
  | cons v vs => rw [arrayOf, ofValue, ofElems_ofList]

theorem ofValue_marshalObject (ms : List (Label × Value)) :
    ofValue (marshalObject ms) = (ms.mapM ofMember).map fun es => .dict (Json.dict es) := by
  cases ms with
  | nil => rfl
  | cons m ms => rw [marshalObject, ofValue, ofMembers_ofList]

theorem ofValue_marshalInt (n : ℤ) : ofValue (marshalInt n) = some (.int n) := by
  rw [marshalInt, ofValue, IntPart.digitsVal_ofNat]
  congr 2
  split_ifs with h
  · rw [decide_eq_true_eq] at h
    omega
  · rw [decide_eq_true_eq] at h
    omega

mutual
theorem ofValue_tree : ∀ o : Object, o.sound = true → ofValue o.tree = some o
  | .null, _ => rfl
  | .bool b, _ => rfl
  | .int n, _ => ofValue_marshalInt n
  | .float _, h => by cases h
  | .str s, h => by
    rw [sound] at h
    rw [tree, ofValue, unquote_quote h]
  | .list items, h => by
    rw [sound] at h
    rw [tree, ofValue_arrayOf, mapM_trees items h, Option.map_some]
  | .dict entries, h => by
    rw [sound, Bool.and_eq_true, decide_eq_true_eq] at h
    rw [tree, ofValue_marshalObject, mapM_members entries h.2, Option.map_some, dict_of_nodup h.1]

theorem mapM_trees : ∀ os : List Object, soundItems os = true →
    (trees os).mapM ofValue = some os
  | [], _ => rfl
  | o :: os, h => by
    rw [soundItems, Bool.and_eq_true] at h
    rw [trees, List.mapM_cons, ofValue_tree o h.1, mapM_trees os h.2]
    rfl

theorem mapM_members : ∀ es : List (Bytes × Object), soundEntries es = true →
    (members es).mapM ofMember = some es
  | [], _ => rfl
  | (key, o) :: es, h => by
    rw [soundEntries, Bool.and_eq_true, Bool.and_eq_true] at h
    rw [members, List.mapM_cons, ofMember, ofValue_tree o h.1.2, unquote_quote h.1.1,
      mapM_members es h.2]
    rfl
end

mutual
theorem encodable_of_sound : ∀ o : Object, o.sound = true → o.encodable = true
  | .null, _ => rfl
  | .bool b, _ => rfl
  | .int n, h => h
  | .float _, h => by cases h
  | .str s, h => h
  | .list items, h => encodableItems_of_sound items h
  | .dict entries, h => by
    rw [sound, Bool.and_eq_true] at h
    exact encodableEntries_of_sound entries h.2

theorem encodableItems_of_sound : ∀ os : List Object, soundItems os = true →
    encodableItems os = true
  | [], _ => rfl
  | o :: os, h => by
    rw [soundItems, Bool.and_eq_true] at h
    rw [encodableItems, encodable_of_sound o h.1, encodableItems_of_sound os h.2]
    rfl

theorem encodableEntries_of_sound : ∀ es : List (Bytes × Object), soundEntries es = true →
    encodableEntries es = true
  | [], _ => rfl
  | (key, o) :: es, h => by
    rw [soundEntries, Bool.and_eq_true, Bool.and_eq_true] at h
    rw [encodableEntries, h.1.1, encodable_of_sound o h.1.2, encodableEntries_of_sound es h.2]
    rfl
end

theorem legible_arrayOf {vs : List Value} (h : ∀ v ∈ vs, Legible v.strings v.numbers) :
    Legible (arrayOf vs).strings (arrayOf vs).numbers := by
  cases vs with
  | nil => exact ⟨nofun, nofun⟩
  | cons v vs =>
    change Legible (Elems.ofList v vs).strings (Elems.ofList v vs).numbers
    induction vs generalizing v with
    | nil => exact h v List.mem_cons_self
    | cons w vs ih =>
      obtain ⟨hv, hvs⟩ := List.forall_mem_cons.mp h
      exact hv.append (ih w hvs)

theorem legible_marshalObject {ms : List (Label × Value)}
    (h : ∀ m ∈ ms, Legible (m.1.key :: m.2.strings) m.2.numbers) :
    Legible (marshalObject ms).strings (marshalObject ms).numbers := by
  cases ms with
  | nil => exact ⟨nofun, nofun⟩
  | cons m ms =>
    change Legible (Members.ofList m ms).strings (Members.ofList m ms).numbers
    induction ms generalizing m with
    | nil => exact h m List.mem_cons_self
    | cons n ms ih =>
      obtain ⟨hm, hms⟩ := List.forall_mem_cons.mp h
      exact hm.append (ih n hms)

theorem denotes_of_valid {b : Bytes} (h : Utf8.valid b = true) : ∃ cs, Denotes (quote b) cs := by
  obtain ⟨cs, rfl⟩ := (Utf8.valid_iff b).mp h
  exact ⟨cs, denotes_quote cs⟩

mutual
theorem legible_tree : ∀ o : Object, o.sound = true → Legible o.tree.strings o.tree.numbers
  | .null, _ => ⟨nofun, nofun⟩
  | .bool b, _ => ⟨nofun, nofun⟩
  | .int z, h => by
    rw [sound, decide_eq_true_eq] at h
    exact ⟨nofun, List.forall_mem_singleton.mpr h⟩
  | .float _, h => by cases h
  | .str b, h => by
    rw [sound] at h
    exact ⟨List.forall_mem_singleton.mpr (denotes_of_valid h), nofun⟩
  | .list items, h => by
    rw [sound] at h
    exact legible_arrayOf (legible_trees items h)
  | .dict entries, h => by
    rw [sound, Bool.and_eq_true] at h
    exact legible_marshalObject (legible_members entries h.2)

theorem legible_trees : ∀ os : List Object, soundItems os = true →
    ∀ v ∈ trees os, Legible v.strings v.numbers
  | [], _ => nofun
  | o :: os, h => by
    rw [soundItems, Bool.and_eq_true] at h
    rw [trees, List.forall_mem_cons]
    exact ⟨legible_tree o h.1, legible_trees os h.2⟩

theorem legible_members : ∀ es : List (Bytes × Object), soundEntries es = true →
    ∀ m ∈ members es, Legible (m.1.key :: m.2.strings) m.2.numbers
  | [], _ => nofun
  | (key, o) :: es, h => by
    rw [soundEntries, Bool.and_eq_true, Bool.and_eq_true] at h
    rw [members, List.forall_mem_cons]
    have ho := legible_tree o h.1.2
    refine ⟨⟨?_, ho.2⟩, legible_members es h.2⟩
    exact List.forall_mem_cons.mpr ⟨denotes_of_valid h.1.1, ho.1⟩
end

end Object

/-- What was dumped is loaded as it was. -/
theorem Loader.loads_dumps (J : Loader) {o : Object} (h : o.sound = true)
    (hdepth : o.tree.depth ≤ 100) : J.loads o.dumps = some o := by
  have hprint : o.dumps = Doc.print ⟨[], o.tree, []⟩ := by
    simp [Doc.print, Blank.print, Object.dumps]
  rw [hprint]
  exact J.reads _ o ⟨o.legible_tree h, hdepth⟩ (o.ofValue_tree h)

end IngestKit.Json.Python

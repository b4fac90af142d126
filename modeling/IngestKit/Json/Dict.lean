import IngestKit.Json.Marshal

/-! JSON objects as dictionaries: how `encoding/json` writes a map with string keys, and what a
reader gets that keeps the last of several members of one name. -/
namespace IngestKit.Json

/-- The members in order, their names unescaped. -/
def Members.entries : Members → List (Bytes × Value)
  | .one l v _ => [(l.key.unquote, v)]
  | .more l v _ rest => (l.key.unquote, v) :: rest.entries

def Value.entries? : Value → Option (List (Bytes × Value))
  | .emptyObject _ => some []
  | .object ms => some ms.entries
  | _ => none

/-- Members after the first, each with the blanks before its comma. -/
abbrev Tail := List (Blank × Label × Value)

def Tail.print (ms : Tail) : Bytes :=
  ms.flatMap fun m => m.1.print ++ 0x2c :: (m.2.1.print ++ m.2.2.print)

def Tail.entries (ms : Tail) : List (Bytes × Value) := ms.map fun m => (m.2.1.key.unquote, m.2.2)

namespace Members

def ofTail (l : Label) (v : Value) : Tail → Blank → Members
  | [], post => .one l v post
  | (w, l', v') :: ms, post => .more l v w (ofTail l' v' ms post)

theorem print_ofTail (l : Label) (v : Value) (ms : Tail) (post : Blank) :
    (ofTail l v ms post).print = l.print ++ (v.print ++ (ms.print ++ post.print)) := by
  induction ms generalizing l v with
  | nil => rfl
  | cons m ms ih => simp [ofTail, Members.print, ih, Tail.print]

theorem entries_ofTail (l : Label) (v : Value) (ms : Tail) (post : Blank) :
    (ofTail l v ms post).entries = (l.key.unquote, v) :: ms.entries := by
  induction ms generalizing l v with
  | nil => rfl
  | cons m ms ih => simp [ofTail, Members.entries, ih, Tail.entries]

theorem exists_ofTail : ∀ ms : Members, ∃ l v tail post, ms = ofTail l v tail post
  | .one l v post => ⟨l, v, [], post, rfl⟩
  | .more l v w rest => by
    obtain ⟨l', v', tail, post, rfl⟩ := exists_ofTail rest
    exact ⟨l, v, (w, l', v') :: tail, post, rfl⟩

end Members

theorem Doc.print_emptyObject (pre w post : Blank) :
    Doc.print ⟨pre, .emptyObject w, post⟩ =
      pre.print ++ 0x7b :: (w.print ++ 0x7d :: post.print) := by
  simp [Doc.print, Value.print]

theorem Doc.print_object (pre : Blank) (l : Label) (v : Value) (ms : Tail) (w post : Blank) :
    Doc.print ⟨pre, .object (.ofTail l v ms w), post⟩ = pre.print ++
      0x7b :: (l.print ++ (v.print ++ (ms.print ++ (w.print ++ 0x7d :: post.print)))) := by
  simp [Doc.print, Value.print, Members.print_ofTail]

section Dictionaries
variable {α : Type}

def hasKey (d : List (Bytes × α)) (key : Bytes) : Bool := key ∈ d.map Prod.fst

theorem hasKey_iff {d : List (Bytes × α)} {key : Bytes} :
    hasKey d key = true ↔ key ∈ d.map Prod.fst := decide_eq_true_iff

def assign (d : List (Bytes × α)) (e : Bytes × α) : List (Bytes × α) :=
  if hasKey d e.1 then d.map fun f => if f.1 = e.1 then e else f else d ++ [e]

/-- The dictionary the entries build up, each replacing an earlier one of its name. -/
def dict (es : List (Bytes × α)) : List (Bytes × α) := es.foldl assign []

theorem dict_of_nodup {es : List (Bytes × α)} (h : (es.map Prod.fst).Nodup) : dict es = es := by
  have hfold : ∀ d : List (Bytes × α), ((d ++ es).map Prod.fst).Nodup →
      es.foldl assign d = d ++ es := by
    clear h
    induction es with
    | nil => simp
    | cons e es ih =>
      intro d hd
      have hnew : ¬hasKey d e.1 = true := by
        rw [List.map_append, List.nodup_append] at hd
        exact fun hmem => hd.2.2 _ (hasKey_iff.mp hmem) _ List.mem_cons_self rfl
      rw [List.foldl_cons, assign, if_neg hnew, ih (d ++ [e]) (by simpa using hd)]
      simp
  exact hfold [] h

/-- Looking a key up among those that pass a filter. -/
theorem lookup_map_filter {ι : Type} [DecidableEq ι] {key : ι → Bytes}
    (hkey : Function.Injective key) (p : ι → Bool) (f : ι → α) (l : List ι) (i : ι) :
    ((l.filter p).map fun j => (key j, f j)).lookup (key i) =
      if i ∈ l ∧ p i = true then some (f i) else none := by
  induction l with
  | nil => simp
  | cons j l ih =>
    by_cases hij : i = j
    · subst hij
      by_cases hp : p i = true
      · simp [hp]
      · rw [List.filter_cons_of_neg hp, ih]
        simp [hp]
    · have hne : (key i == key j) = false := by simpa using fun h => hij (hkey h)
      by_cases hp : p j = true
      · rw [List.filter_cons_of_pos hp, List.map_cons, List.lookup_cons, hne]
        simp [ih, hij]
      · rw [List.filter_cons_of_neg hp, ih]
        simp [hij]

end Dictionaries

def marshalObject : List (Label × Value) → Value
  | [] => .emptyObject []
  | m :: ms => .object (.ofList m ms)

theorem Members.entries_ofList (m : Label × Value) (ms : List (Label × Value)) :
    (Members.ofList m ms).entries = (m :: ms).map fun m => (m.1.key.unquote, m.2) := by
  induction ms generalizing m with
  | nil => rfl
  | cons n ns ih =>
    rw [Members.ofList, Members.entries, ih]
    rfl

theorem entries?_marshalObject (ms : List (Label × Value)) :
    (marshalObject ms).entries? = some (ms.map fun m => (m.1.key.unquote, m.2)) := by
  cases ms with
  | nil => rfl
  | cons m ms => exact congrArg some (Members.entries_ofList m ms)

theorem depth_marshalObject_le {ms : List (Label × Value)} {k : ℕ} (h : ∀ m ∈ ms, m.2.depth ≤ k) :
    (marshalObject ms).depth ≤ k + 1 := by
  cases ms with
  | nil => exact Nat.succ_le_succ (Nat.zero_le k)
  | cons m ms => exact Nat.succ_le_succ (Members.depth_ofList_le m ms h)

/-- A record, given by the names and the values of the fields that are written. -/
def marshalFields (fs : List (Bytes × Value)) : Value :=
  marshalObject (fs.map fun f => (Label.plain f.1, f.2))

theorem entries?_marshalFields {fs : List (Bytes × Value)}
    (h : ∀ f ∈ fs, ∀ x ∈ f.1, PlainByte x) : (marshalFields fs).entries? = some fs := by
  rw [marshalFields, entries?_marshalObject, List.map_map]
  refine congrArg some ((List.map_congr_left fun f hf => ?_).trans (List.map_id fs))
  exact Prod.ext (Str.unquote_plain (h f hf)) rfl

theorem depth_marshalFields_le {fs : List (Bytes × Value)} {k : ℕ} (h : ∀ f ∈ fs, f.2.depth ≤ k) :
    (marshalFields fs).depth ≤ k + 1 := by
  refine depth_marshalObject_le fun n hn => ?_
  obtain ⟨f, hf, rfl⟩ := List.mem_map.mp hn
  exact h f hf

/-- A map with string keys, given in the order of its keys. -/
def marshalMap (m : List (Bytes × Value)) : Value :=
  marshalObject (m.map fun e => (⟨[], marshalString e.1, [], []⟩, e.2))

theorem entries?_marshalMap {m : List (Bytes × Value)}
    (h : ∀ e ∈ m, Utf8.valid e.1 = true) : (marshalMap m).entries? = some m := by
  rw [marshalMap, entries?_marshalObject, List.map_map]
  refine congrArg some ((List.map_congr_left fun e he => ?_).trans (List.map_id m))
  exact Prod.ext ((unquote_marshalString e.1).trans (Utf8.coerce_of_valid (h e he))) rfl

theorem depth_marshalMap_le {m : List (Bytes × Value)} {k : ℕ} (h : ∀ e ∈ m, e.2.depth ≤ k) :
    (marshalMap m).depth ≤ k + 1 := by
  refine depth_marshalObject_le fun n hn => ?_
  obtain ⟨e, he, rfl⟩ := List.mem_map.mp hn
  exact h e he

end IngestKit.Json

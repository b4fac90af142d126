import IngestKit.Json.Plain

/-! Decoding an object into a record: names match exactly or after case folding,
unknown names are refused or passed over, and later members overwrite earlier ones. -/
namespace IngestKit.Json

/-- Simple case folding as far as ASCII names can observe it: letters fold to upper
case, U+017F to S and U+212A to K. No other fold orbit contains an ASCII letter. -/
def foldRune (c : Char) : Char :=
  if 0x61 ≤ c.val.toNat ∧ c.val.toNat ≤ 0x7a then Char.ofNat (c.val.toNat - 0x20)
  else if c.val.toNat = 0x17f then Char.ofNat 0x53
  else if c.val.toNat = 0x212a then Char.ofNat 0x4b
  else c

def foldName (b : Bytes) : Bytes :=
  (Utf8.runes b).flatMap fun
    | some c => String.utf8EncodeChar (foldRune c)
    | none => Utf8.replacement

/-- A record field: its name and what a value does to it; `none` is a type error. -/
structure FieldSpec (σ : Type) where
  name : Bytes
  set : Value → σ → Option σ

/-- What becomes of a member that no field has the name of. -/
inductive Unknown
  | refuse
  | ignore

section Struct
variable {σ : Type} (unknown : Unknown) (fs : List (FieldSpec σ))

def findField (key : Bytes) : Option (FieldSpec σ) :=
  match fs.find? fun f => f.name = key with
  | some f => some f
  | none => fs.find? fun f => foldName f.name = foldName key

def setMember (l : Label) (v : Value) (s : σ) : Option σ :=
  match findField fs l.key.unquote with
  | some f => f.set v s
  | none =>
    match unknown with
    | .refuse => none
    | .ignore => some s

def decodeMembers : Members → σ → Option σ
  | .one l v _, s => setMember unknown fs l v s
  | .more l v _ rest, s =>
    match setMember unknown fs l v s with
    | some s => decodeMembers rest s
    | none => none

/-- `null` leaves the record as it is. -/
def decodeStruct (v : Value) (s : σ) : Option σ :=
  match v with
  | .null => some s
  | .emptyObject _ => some s
  | .object ms => decodeMembers unknown fs ms s
  | _ => none

variable {unknown fs}

private theorem setMember_induction {P : σ → Prop} {v : Value} {s s' : σ} (h0 : P s)
    (hf : ∀ f ∈ fs, ∀ s s', P s → f.set v s = some s' → P s') {l : Label}
    (h : setMember unknown fs l v s = some s') : P s' := by
  unfold setMember findField at h
  split at h
  next f hfind =>
    refine hf f ?_ s s' h0 h
    split at hfind
    next g hg =>
      cases hfind
      exact List.mem_of_find?_eq_some hg
    · exact List.mem_of_find?_eq_some hfind
  · cases unknown with
    | refuse => cases h
    | ignore =>
      cases h
      exact h0

private theorem decodeMembers_induction {P : σ → Prop} : ∀ {ms : Members} {s s' : σ}, P s →
    (∀ f ∈ fs, ∀ v ∈ ms.values, ∀ s s', P s → f.set v s = some s' → P s') →
    decodeMembers unknown fs ms s = some s' → P s'
  | .one l v post, s, s', h0, hf, h =>
    setMember_induction h0 (fun f hm => hf f hm v (by simp [Members.values])) h
  | .more l v post rest, s, s', h0, hf, h => by
    unfold decodeMembers at h
    split at h
    next s₁ hs₁ =>
      have h₁ := setMember_induction h0 (fun f hm => hf f hm v (by simp [Members.values])) hs₁
      exact decodeMembers_induction h₁ (fun f hm w hw => hf f hm w (by simp [Members.values, hw])) h
    · cases h

/-- What holds of the start and survives setting any field to any part of the text
holds of the decoded record. -/
theorem decodeStruct_induction {P : σ → Prop} {v : Value} {s s' : σ} (h0 : P s)
    (hf : ∀ f ∈ fs, ∀ w : Value, w.print.length ≤ v.print.length → ∀ s s', P s →
      f.set w s = some s' → P s')
    (h : decodeStruct unknown fs v s = some s') : P s' := by
  unfold decodeStruct at h
  split at h
  · exact Option.some.inj h ▸ h0
  · exact Option.some.inj h ▸ h0
  next ms =>
    refine decodeMembers_induction h0 (fun f hm w hw => hf f hm w ?_) h
    have := Members.length_le hw
    simp only [Value.print, List.length_cons, List.length_append]
    omega
  · cases h

/-- A name matches its own field when names are distinct. -/
theorem findField_of_mem {f : FieldSpec σ} (hf : f ∈ fs) (hd : (fs.map FieldSpec.name).Nodup) :
    findField fs f.name = some f := by
  have hfind : fs.find? (fun g => g.name = f.name) = some f := by
    induction fs with
    | nil => cases hf
    | cons g gs ih =>
      rw [List.map_cons, List.nodup_cons] at hd
      rcases List.mem_cons.mp hf with rfl | hm
      · simp
      · have hne : g.name ≠ f.name := by
          intro he
          exact hd.1 (he ▸ List.mem_map_of_mem hm)
        rw [List.find?_cons_of_neg (by simpa using hne)]
        exact ih hm hd.2
  rw [findField, hfind]

theorem setMember_plain {f : FieldSpec σ} (hf : f ∈ fs) (hd : (fs.map FieldSpec.name).Nodup)
    (hn : ∀ x ∈ f.name, PlainByte x) (v : Value) (s : σ) :
    setMember unknown fs (.plain f.name) v s = f.set v s := by
  have hkey : (Label.plain f.name).key.unquote = f.name := Str.unquote_plain hn
  unfold setMember
  rw [hkey, findField_of_mem hf hd]

end Struct

/-- A string field: `null` leaves it unchanged. -/
def decodeString (v : Value) (old : Bytes) : Option Bytes :=
  match v with
  | .null => some old
  | .string s => some s.unquote
  | _ => none

/-- A field with its own text decoder. -/
def decodeText {α : Type} (unmarshal : Bytes → Option α) (v : Value) (old : α) : Option α :=
  match v with
  | .null => some old
  | .string s => unmarshal s.unquote
  | _ => none

/-- The first value of a stream and what follows it, under the nesting limit. -/
def decodeFirst (b : Bytes) : Option (Value × Bytes) :=
  match parseValue b.length (skipBlank b).2 with
  | some (v, t) => if v.depth ≤ maxNestingDepth then some (v, t) else none
  | none => none

/-- Nothing but blanks remains, so the next read is end of file. -/
def atEOF (b : Bytes) : Bool := (skipBlank b).2.isEmpty

theorem parse?_of_decodeFirst {b t : Bytes} {v : Value} (h : decodeFirst b = some (v, t))
    (ht : atEOF t = true) : parse? b = some ⟨(skipBlank b).1, v, (skipBlank t).1⟩ := by
  unfold decodeFirst at h
  split at h
  next w u hw =>
    split_ifs at h with hd
    obtain ⟨rfl, rfl⟩ := Prod.mk.inj (Option.some.inj h)
    have he : (skipBlank u).2 = [] := List.isEmpty_iff.mp ht
    simp only [parse?, parseDoc, hw, he, if_true, hd]
  · cases h

theorem decodeFirst_of_parse? {b : Bytes} {d : Doc} (h : parse? b = some d) :
    ∃ t, decodeFirst b = some (d.value, t) ∧ atEOF t = true := by
  unfold parse? at h
  split at h
  next e he =>
    split_ifs at h with hd
    have heq := Option.some.inj h
    subst heq
    unfold parseDoc at he
    split at he
    · cases he
    next v t hv =>
      split_ifs at he with ht
      have hdoc := Option.some.inj he
      subst hdoc
      refine ⟨t, ?_, by simp [atEOF, ht]⟩
      simp only [decodeFirst, hv]
      rw [if_pos hd]
  · cases h

end IngestKit.Json

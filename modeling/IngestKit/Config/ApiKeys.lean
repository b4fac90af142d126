import IngestKit.Json.Dict
import IngestKit.Json.Stream
import Mathlib.Data.List.Forall2
import Mathlib.Data.List.Nodup

/-! `ParseAPIKeys`: the map from API keys to tenants, read token by token. -/
namespace IngestKit.Config
open Json Json.Decoder

def fail : String := "invalid or duplicate API_KEYS mapping"

/-- One round of the loop. -/
def member (d : Decoder) (keys : List (Bytes × Bytes)) :
    Except String (List (Bytes × Bytes) × Decoder) :=
  match d.token with
  | .ok (.string key, d) =>
    if hasKey keys key then .error fail
    else
      match d.decode with
      | .error _ => .error fail
      | .ok (v, d) =>
        match decodeString v [] with
        | none => .error fail
        | some tenant => .ok (keys ++ [(key, tenant)], d)
  | _ => .error fail

def members : ℕ → Decoder → List (Bytes × Bytes) → Except String (List (Bytes × Bytes) × Decoder)
  | 0, _, _ => .error fail
  | n + 1, d, keys =>
    if d.more then
      match member d keys with
      | .error e => .error e
      | .ok (keys, d) => members n d keys
    else .ok (keys, d)

/-- The entries of the map in the order they were added. Each round of the loop reads a byte. -/
def parseAPIKeys (raw : Bytes) : Except String (List (Bytes × Bytes)) :=
  match token ⟨raw, .topValue, []⟩ with
  | .ok (.delim 0x7b, d) =>
    match members (raw.length + 1) d [] with
    | .error e => .error e
    | .ok (keys, d) =>
      match d.token with
      | .ok (.delim 0x7d, d) =>
        match d.decode with
        | .error .eof => .ok keys
        | _ => .error fail
      | _ => .error fail
  | _ => .error fail

/-- Keys and tenants for these entries; `null` stands for the empty tenant. -/
def Maps (es : List (Bytes × Value)) (keys : List (Bytes × Bytes)) : Prop :=
  List.Forall₂ (fun e k => k.1 = e.1 ∧ decodeString e.2 [] = some k.2) es keys

theorem Maps.names {es : List (Bytes × Value)} {keys : List (Bytes × Bytes)} (h : Maps es keys) :
    keys.map Prod.fst = es.map Prod.fst := by
  induction h with
  | nil => rfl
  | cons hk _ ih => rw [List.map_cons, List.map_cons, hk.1, ih]

section Members
variable {stack : List TokenState} {keys keys' : List (Bytes × Bytes)} {d d' : Decoder}
  {b t : Bytes}

theorem depth_of_decodeString {v : Value} {tenant : Bytes} (h : decodeString v [] = some tenant) :
    v.depth ≤ maxNestingDepth := by
  cases v <;> first | exact Nat.zero_le _ | cases h

theorem member_print {s : TokenState} {lead : Bytes} (hlead : Lead s lead) (l : Label) {v : Value}
    {tenant : Bytes} (hnew : l.key.unquote ∉ keys.map Prod.fst)
    (hv : decodeString v [] = some tenant) (ht : NumberEnds t) :
    member ⟨lead ++ (l.print ++ (v.print ++ t)), s, stack⟩ keys =
      .ok (keys ++ [(l.key.unquote, tenant)], ⟨t, .objectComma, stack⟩) := by
  have htext : l.print ++ (v.print ++ t) = l.pre.print ++ (l.key.print ++
      (l.mid.print ++ 0x3a :: (l.lead.print ++ (v.print ++ t)))) := by
    simp [Label.print]
  rw [htext, member, token_print hlead]
  dsimp only
  rw [if_neg (mt hasKey_iff.mp hnew), decode_print l.mid l.lead (depth_of_decodeString hv) ht]
  dsimp only
  rw [hv]

/-- A round that succeeds has read one member. -/
theorem member_eq_ok (hs : d.state = .objectStart ∨ d.state = .objectComma)
    (h : member d keys = .ok (keys', d')) :
    ∃ (lead : Bytes) (l : Label) (v : Value) (tenant t : Bytes), Lead d.state lead ∧
      d.rest = lead ++ (l.print ++ (v.print ++ t)) ∧ l.key.unquote ∉ keys.map Prod.fst ∧
      decodeString v [] = some tenant ∧ keys' = keys ++ [(l.key.unquote, tenant)] ∧
      d' = ⟨t, .objectComma, d.stack⟩ := by
  unfold member at h
  split at h
  next key d₁ htoken =>
    split_ifs at h with hnew
    split at h
    · cases h
    next v d₂ hdecode =>
      split at h
      · cases h
      next tenant htenant =>
        cases objectToken_of_token hs htoken with
        | name lead hlead w k t hrest =>
          obtain ⟨mid, post, u, rfl, rfl⟩ := decode_eq_ok hdecode
          obtain ⟨rfl, rfl⟩ := Prod.mk.inj (Except.ok.inj h)
          refine ⟨lead, ⟨w, k, mid, post⟩, v, tenant, u, hlead, ?_,
            mt hasKey_iff.mpr hnew, htenant, rfl, rfl⟩
          rw [hrest]
          simp [Label.print]
  · cases h

/-- After the first member, the loop reads a tail of members. -/
theorem members_eq_ok {n : ℕ} (h : members n ⟨b, .objectComma, stack⟩ keys = .ok (keys', d')) :
    ∃ (ms : Tail) (new : List (Bytes × Bytes)) (t : Bytes), b = ms.print ++ t ∧
      d' = ⟨t, .objectComma, stack⟩ ∧ keys' = keys ++ new ∧ Maps ms.entries new ∧
      ((keys.map Prod.fst).Nodup → (keys'.map Prod.fst).Nodup) := by
  induction n generalizing b keys with
  | zero => cases h
  | succ n ih =>
    rw [members] at h
    split_ifs at h with hmore
    · split at h
      · cases h
      next keys₁ d₁ hmember =>
        obtain ⟨lead, l, v, tenant, t, hlead, hrest, hnew, hv, rfl, rfl⟩ :=
          member_eq_ok (.inr rfl) hmember
        obtain ⟨ms, new, u, rfl, hd, rfl, hmaps, hnodup⟩ := ih h
        cases hlead with
        | comma w =>
          refine ⟨(w, l, v) :: ms, (l.key.unquote, tenant) :: new, u, ?_, hd, ?_,
            .cons ⟨rfl, hv⟩ hmaps, fun hk => hnodup ?_⟩
          · dsimp only at hrest
            rw [hrest]
            simp [Tail.print]
          · simp
          · rw [List.map_append, List.nodup_append]
            refine ⟨hk, List.nodup_singleton _, ?_⟩
            rintro a ha b hb rfl
            have heq : a = l.key.unquote := List.mem_singleton.mp hb
            exact hnew (heq ▸ ha)
    · obtain ⟨rfl, rfl⟩ := Prod.mk.inj (Except.ok.inj h)
      exact ⟨[], [], b, rfl, rfl, (List.append_nil _).symm, .nil, id⟩

theorem numberEnds_tail (ms : Tail) (post : Blank) (u : Bytes) :
    NumberEnds (ms.print ++ (post.print ++ 0x7d :: u)) := by
  cases ms with
  | nil => exact numberEnds_blank post u rfl
  | cons m ms =>
    simp only [Tail.print, List.flatMap_cons, List.append_assoc, List.cons_append]
    exact numberEnds_blank m.1 _ rfl

theorem members_print {ms : Tail} {new : List (Bytes × Bytes)} (hmaps : Maps ms.entries new)
    (hnodup : ((keys ++ new).map Prod.fst).Nodup) {n : ℕ} (hn : ms.length < n) (post : Blank)
    (u : Bytes) :
    members n ⟨ms.print ++ (post.print ++ 0x7d :: u), .objectComma, stack⟩ keys =
      .ok (keys ++ new, ⟨post.print ++ 0x7d :: u, .objectComma, stack⟩) := by
  induction ms generalizing keys new n with
  | nil =>
    obtain ⟨n, rfl⟩ := Nat.exists_eq_add_of_lt hn
    cases hmaps
    rw [members, Tail.print, List.flatMap_nil, List.nil_append, more_print post (by decide),
      List.append_nil]
    rfl
  | cons m ms ih =>
    obtain ⟨w, l, v⟩ := m
    obtain ⟨n, rfl⟩ : ∃ k, n = k + 1 := ⟨n - 1, by omega⟩
    obtain ⟨⟨key, tenant⟩, new, ⟨hkey, hv⟩, htail, rfl⟩ := List.forall₂_cons_left_iff.mp hmaps
    dsimp only at hkey hv
    subst hkey
    have htext : Tail.print ((w, l, v) :: ms) ++ (post.print ++ 0x7d :: u) =
        (w.print ++ [0x2c]) ++
          (l.print ++ (v.print ++ (Tail.print ms ++ (post.print ++ 0x7d :: u)))) := by
      simp [Tail.print]
    have hmore : more ⟨(w.print ++ [0x2c]) ++ (l.print ++ (v.print ++
        (Tail.print ms ++ (post.print ++ 0x7d :: u)))), .objectComma, stack⟩ = true := by
      rw [List.append_assoc, List.singleton_append, more_print w (by decide)]
      decide
    have hnew : l.key.unquote ∉ keys.map Prod.fst := by
      rw [List.map_append, List.nodup_append] at hnodup
      exact fun hmem => hnodup.2.2 _ hmem _ List.mem_cons_self rfl
    rw [htext, members, if_pos hmore,
      member_print (.comma w) l hnew hv (numberEnds_tail ms post u)]
    dsimp only
    rw [ih htail (by simpa using hnodup) (by simpa using hn)]
    simp

/-- The loop reads the members of an object. -/
theorem members_start_eq_ok {n : ℕ}
    (h : members n ⟨b, .objectStart, stack⟩ [] = .ok (keys, d)) :
    (keys = [] ∧ d = ⟨b, .objectStart, stack⟩) ∨
      ∃ (l : Label) (v : Value) (ms : Tail) (t : Bytes),
        b = l.print ++ (v.print ++ (ms.print ++ t)) ∧
        d = ⟨t, .objectComma, stack⟩ ∧ Maps ((l.key.unquote, v) :: ms.entries) keys ∧
        (keys.map Prod.fst).Nodup := by
  cases n with
  | zero => cases h
  | succ n =>
    rw [members] at h
    split_ifs at h with hmore
    · split at h
      · cases h
      next keys₁ d₁ hmember =>
        obtain ⟨lead, l, v, tenant, t, hlead, hrest, -, hv, rfl, rfl⟩ :=
          member_eq_ok (.inl rfl) hmember
        obtain ⟨ms, new, u, rfl, rfl, rfl, hmaps, hnodup⟩ := members_eq_ok h
        cases hlead with
        | start =>
          exact .inr ⟨l, v, ms, u, hrest, rfl, .cons ⟨rfl, hv⟩ hmaps,
            hnodup (List.nodup_singleton _)⟩
    · obtain ⟨rfl, rfl⟩ := Prod.mk.inj (Except.ok.inj h)
      exact .inl ⟨rfl, rfl⟩

theorem members_start_print {l : Label} {v : Value} {ms : Tail}
    (hmaps : Maps ((l.key.unquote, v) :: ms.entries) keys) (hnodup : (keys.map Prod.fst).Nodup)
    {n : ℕ} (hn : ms.length + 1 < n) (post : Blank) (u : Bytes) :
    members n ⟨l.print ++ (v.print ++ (ms.print ++ (post.print ++ 0x7d :: u))), .objectStart, stack⟩
      [] = .ok (keys, ⟨post.print ++ 0x7d :: u, .objectComma, stack⟩) := by
  obtain ⟨n, rfl⟩ : ∃ k, n = k + 1 := ⟨n - 1, by omega⟩
  obtain ⟨⟨key, tenant⟩, new, ⟨hkey, hv⟩, htail, rfl⟩ := List.forall₂_cons_left_iff.mp hmaps
  dsimp only at hkey hv
  subst hkey
  have hmore : more ⟨l.print ++ (v.print ++ (ms.print ++ (post.print ++ 0x7d :: u))), .objectStart,
      stack⟩ = true := by
    rw [Label.print, Str.print, List.append_assoc, List.append_assoc, List.cons_append,
      more_print l.pre (by decide)]
    decide
  rw [members, if_pos hmore, ← List.nil_append (l.print ++ _),
    member_print .start l (by simp) hv (numberEnds_tail ms post u)]
  exact members_print htail hnodup (by omega) post u

/-- The closing brace and the end of the input. -/
theorem close_iff {s : TokenState} (hs : s = .objectStart ∨ s = .objectComma) :
    (∃ d, token ⟨b, s, [.topValue]⟩ = .ok (.delim 0x7d, d) ∧ d.decode = .error .eof) ↔
      ∃ post w : Blank, b = post.print ++ 0x7d :: w.print := by
  constructor
  · rintro ⟨d, htoken, heof⟩
    generalize hr : (StreamToken.delim 0x7d, d) = r at htoken
    cases objectToken_of_token hs htoken with
    | close post t outer stack hrest hstack =>
      obtain ⟨rfl, rfl⟩ := List.cons.inj hstack
      obtain ⟨-, rfl⟩ := Prod.mk.inj hr
      obtain ⟨w, rfl⟩ := decode_top_eq_eof.mp heof
      exact ⟨post, w, hrest⟩
    | name => cases hr
  · rintro ⟨post, w, rfl⟩
    exact ⟨_, token_of_round (tokenRound_close hs post w.print .topValue),
      decode_top_eq_eof.mpr ⟨w, rfl⟩⟩

end Members

theorem parseAPIKeys_eq_ok {raw : Bytes} {keys : List (Bytes × Bytes)} :
    parseAPIKeys raw = .ok keys ↔ ∃ d₁ d₂, token ⟨raw, .topValue, []⟩ = .ok (.delim 0x7b, d₁) ∧
      members (raw.length + 1) d₁ [] = .ok (keys, d₂) ∧
      ∃ d₃, d₂.token = .ok (.delim 0x7d, d₃) ∧ d₃.decode = .error .eof := by
  unfold parseAPIKeys
  constructor
  · intro h
    split at h
    next d₁ hopen =>
      split at h
      · cases h
      next keys' d₂ hmembers =>
        split at h
        next d₃ hclose =>
          split at h
          next heof =>
            obtain rfl := Except.ok.inj h
            exact ⟨d₁, d₂, hopen, hmembers, d₃, hclose, heof⟩
          · cases h
        · cases h
    · cases h
  · rintro ⟨d₁, d₂, hopen, hmembers, d₃, hclose, heof⟩
    simp only [hopen, hmembers, hclose, heof]

theorem length_le_print (ms : Tail) : ms.length ≤ ms.print.length := by
  induction ms with
  | nil => rfl
  | cons m ms ih =>
    simp only [Tail.print, List.flatMap_cons, List.length_append, List.length_cons] at ih ⊢
    omega

/-- `ParseAPIKeys` accepts exactly one object, between blanks, whose values are strings or null and
whose names differ once unescaped; the result has these names and no other. -/
theorem parseAPIKeys_ok_iff (raw : Bytes) (keys : List (Bytes × Bytes)) :
    parseAPIKeys raw = .ok keys ↔ ∃ (doc : Doc) (es : List (Bytes × Value)), doc.print = raw ∧
      doc.value.entries? = some es ∧ (es.map Prod.fst).Nodup ∧ Maps es keys := by
  rw [parseAPIKeys_eq_ok]
  constructor
  · rintro ⟨d₁, d₂, hopen, hmembers, hclose⟩
    obtain ⟨w, t, rfl, rfl⟩ := token_eq_open.mp hopen
    obtain ⟨rfl, rfl⟩ | ⟨l, v, ms, t, rfl, rfl, hmaps, hnodup⟩ := members_start_eq_ok hmembers
    · obtain ⟨post, last, rfl⟩ := (close_iff (.inl rfl)).mp hclose
      exact ⟨⟨w, .emptyObject post, last⟩, [], Doc.print_emptyObject w post last, rfl,
        List.nodup_nil, .nil⟩
    · obtain ⟨post, last, rfl⟩ := (close_iff (.inr rfl)).mp hclose
      exact ⟨⟨w, .object (.ofTail l v ms post), last⟩, (l.key.unquote, v) :: ms.entries,
        Doc.print_object w l v ms post last, congrArg some (Members.entries_ofTail l v ms post),
        hmaps.names ▸ hnodup, hmaps⟩
  · rintro ⟨⟨pre, v, last⟩, es, rfl, hes, hnodup, hmaps⟩
    rw [← hmaps.names] at hnodup
    cases v with
    | emptyObject post =>
      cases hes
      cases hmaps
      rw [Doc.print_emptyObject]
      refine ⟨_, _, token_eq_open.mpr ⟨pre, _, rfl, rfl⟩, ?_,
        (close_iff (.inl rfl)).mpr ⟨post, last, rfl⟩⟩
      rw [members, more_print post (by decide)]
      rfl
    | object ms =>
      obtain ⟨l, v, tail, post, rfl⟩ := ms.exists_ofTail
      obtain rfl : (l.key.unquote, v) :: tail.entries = es := by
        rw [← Members.entries_ofTail]
        exact Option.some.inj hes
      have hlength := length_le_print tail
      have hpos := v.length_print_pos
      rw [Doc.print_object]
      refine ⟨_, _, token_eq_open.mpr ⟨pre, _, rfl, rfl⟩,
        members_start_print hmaps hnodup ?_ post last.print,
        (close_iff (.inr rfl)).mpr ⟨post, last, rfl⟩⟩
      simp only [List.length_append, List.length_cons]
      omega
    | null => cases hes
    | bool x => cases hes
    | number n => cases hes
    | string s => cases hes
    | emptyArray w => cases hes
    | array es => cases hes

end IngestKit.Config

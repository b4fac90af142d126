import IngestKit.Json.Decode

/-! The token interface of `json.Decoder`, on an input that is read to its end. A decoder is not
used again after an error. -/
namespace IngestKit.Json

inductive TokenState
  | topValue | arrayStart | arrayValue | arrayComma
  | objectStart | objectKey | objectColon | objectValue | objectComma
  deriving DecidableEq

namespace TokenState

/-- `tokenValueAllowed`. -/
def valueAllowed : TokenState → Bool
  | .topValue | .arrayStart | .arrayValue | .objectValue => true
  | _ => false

/-- `tokenValueEnd`. -/
def valueEnd : TokenState → TokenState
  | .arrayStart | .arrayValue => .arrayComma
  | .objectValue => .objectComma
  | s => s

end TokenState

inductive StreamError
  | eof
  | invalid

/-- Why no value could be read. -/
def StreamError.ofRest (b : Bytes) : StreamError := if atEOF b then .eof else .invalid

inductive StreamToken
  | delim (c : UInt8)
  | string (s : Bytes)
  | value (v : Value)

def StreamToken.ofValue : Value → StreamToken
  | .string s => .string s.unquote
  | v => .value v

structure Decoder where
  rest : Bytes
  state : TokenState := .topValue
  stack : List TokenState := []

namespace Decoder

def peek (d : Decoder) : Except StreamError (UInt8 × Decoder) :=
  match (skipBlank d.rest).2 with
  | [] => .error .eof
  | c :: t => .ok (c, { d with rest := c :: t })

/-- Pass over one byte. -/
def pass (d : Decoder) (s : TokenState) : Decoder := { d with rest := d.rest.tail, state := s }

def separator (d : Decoder) (c : UInt8) (s : TokenState) : Except StreamError Decoder :=
  match d.peek with
  | .error e => .error e
  | .ok (b, d) => if b = c then .ok (d.pass s) else .error .invalid

/-- `tokenPrepareForDecode`. -/
def prepareForDecode (d : Decoder) : Except StreamError Decoder :=
  match d.state with
  | .arrayComma => d.separator 0x2c .arrayValue
  | .objectColon => d.separator 0x3a .objectValue
  | _ => .ok d

def readValue (d : Decoder) : Except StreamError (Value × Decoder) :=
  if d.state.valueAllowed then
    match decodeFirst d.rest with
    | some (v, t) => .ok (v, { d with rest := t, state := d.state.valueEnd })
    | none => .error (.ofRest d.rest)
  else .error .invalid

/-- `Decode`, up to the assignment of the value. -/
def decode (d : Decoder) : Except StreamError (Value × Decoder) :=
  match d.prepareForDecode with
  | .error e => .error e
  | .ok d => d.readValue

def opening (d : Decoder) (c : UInt8) (s : TokenState) :
    Except StreamError (Option StreamToken × Decoder) :=
  if d.state.valueAllowed then
    .ok (some (.delim c), { d.pass s with stack := d.state :: d.stack })
  else .error .invalid

def closing (d : Decoder) (c : UInt8) (start comma : TokenState) :
    Except StreamError (Option StreamToken × Decoder) :=
  if d.state = start ∨ d.state = comma then
    match d.stack with
    | s :: stack => .ok (some (.delim c), { d.pass s.valueEnd with stack := stack })
    | [] => .error .invalid
  else .error .invalid

def key (d : Decoder) : Except StreamError (Option StreamToken × Decoder) :=
  match { d with state := .topValue }.decode with
  | .error e => .error e
  | .ok (v, d) => .ok (some (.ofValue v), { d with state := .objectColon })

/-- One round of `Token`; it goes on after a separator. -/
def tokenRound (d : Decoder) : Except StreamError (Option StreamToken × Decoder) :=
  match d.peek with
  | .error e => .error e
  | .ok (c, d) =>
    if c = 0x5b then d.opening c .arrayStart
    else if c = 0x5d then d.closing c .arrayStart .arrayComma
    else if c = 0x7b then d.opening c .objectStart
    else if c = 0x7d then d.closing c .objectStart .objectComma
    else if c = 0x3a then
      if d.state = .objectColon then .ok (none, d.pass .objectValue) else .error .invalid
    else if c = 0x2c then
      if d.state = .arrayComma then .ok (none, d.pass .arrayValue)
      else if d.state = .objectComma then .ok (none, d.pass .objectKey)
      else .error .invalid
    else if c = 0x22 ∧ (d.state = .objectStart ∨ d.state = .objectKey) then d.key
    else if d.state.valueAllowed then
      match d.decode with
      | .error e => .error e
      | .ok (v, d) => .ok (some (.ofValue v), d)
    else .error .invalid

def tokenRounds : ℕ → Decoder → Except StreamError (StreamToken × Decoder)
  | 0, _ => .error .invalid
  | n + 1, d =>
    match d.tokenRound with
    | .error e => .error e
    | .ok (some t, d) => .ok (t, d)
    | .ok (none, d) => tokenRounds n d

/-- `Token`. Each round but the last reads a byte. -/
def token (d : Decoder) : Except StreamError (StreamToken × Decoder) :=
  d.tokenRounds (d.rest.length + 1)

def more (d : Decoder) : Bool :=
  match d.peek with
  | .error _ => false
  | .ok (c, _) => c ≠ 0x5d && c ≠ 0x7d

section Blanks
variable {c : UInt8} {s s' : TokenState} {stack : List TokenState} {d d' : Decoder}

theorem peek_print (w : Blank) (hc : Space.ofByte? c = none) (t : Bytes) :
    peek ⟨w.print ++ c :: t, s, stack⟩ = .ok (c, ⟨c :: t, s, stack⟩) := by
  rw [peek, skipBlank_print w (noBlank_cons.mpr hc)]

theorem peek_eq_ok (h : d.peek = .ok (c, d')) :
    ∃ (w : Blank) (t : Bytes), d.rest = w.print ++ c :: t ∧ d' = { d with rest := c :: t } := by
  unfold peek at h
  split at h
  · cases h
  next b t hb =>
    cases h
    refine ⟨(skipBlank d.rest).1, t, ?_, rfl⟩
    rw [← hb]
    exact skipBlank_sound d.rest

theorem separator_print (w : Blank) (hc : Space.ofByte? c = none) (t : Bytes) :
    separator ⟨w.print ++ c :: t, s, stack⟩ c s' = .ok ⟨t, s', stack⟩ := by
  rw [separator, peek_print w hc]
  exact if_pos rfl

theorem separator_eq_ok (h : d.separator c s' = .ok d') : ∃ (w : Blank) (t : Bytes),
    d.rest = w.print ++ c :: t ∧ d' = { d with rest := t, state := s' } := by
  unfold separator at h
  split at h
  · cases h
  next b d₁ hp =>
    split_ifs at h with hb
    subst hb
    obtain ⟨w, t, hrest, rfl⟩ := peek_eq_ok hp
    exact ⟨w, t, hrest, (Except.ok.inj h).symm⟩

end Blanks

section Values
variable {s : TokenState} {stack : List TokenState} {b t : Bytes} {v : Value} {d d' : Decoder}

theorem readValue_print (hs : s.valueAllowed = true) (w : Blank) (hv : v.depth ≤ maxNestingDepth)
    (ht : NumberEnds t) :
    readValue ⟨w.print ++ (v.print ++ t), s, stack⟩ = .ok (v, ⟨t, s.valueEnd, stack⟩) := by
  have hlength : v.print.length ≤ (w.print ++ (v.print ++ t)).length := by
    rw [List.length_append, List.length_append]
    omega
  have hfirst : decodeFirst (w.print ++ (v.print ++ t)) = some (v, t) := by
    rw [decodeFirst, skipBlank_print w (v.noBlank_print t), v.parse_print _ hlength ht]
    exact if_pos hv
  simp only [readValue, hs, if_true, hfirst]

theorem readValue_eq_ok (h : d.readValue = .ok (v, d')) : ∃ (w : Blank) (t : Bytes),
    d.rest = w.print ++ (v.print ++ t) ∧
      d' = { d with rest := t, state := d.state.valueEnd } := by
  unfold readValue at h
  split_ifs at h
  split at h
  next v' t hfirst =>
    cases h
    unfold decodeFirst at hfirst
    split at hfirst
    next v' t' hparse =>
      split_ifs at hfirst
      cases hfirst
      refine ⟨(skipBlank d.rest).1, t, ?_, rfl⟩
      rw [← (parse_sound _).1 hparse]
      exact skipBlank_sound d.rest
    · cases hfirst
  · cases h

/-- The value of a member is read after its name. -/
theorem decode_print (mid lead : Blank) (hv : v.depth ≤ maxNestingDepth) (ht : NumberEnds t) :
    decode ⟨mid.print ++ 0x3a :: (lead.print ++ (v.print ++ t)), .objectColon, stack⟩ =
      .ok (v, ⟨t, .objectComma, stack⟩) := by
  rw [decode, prepareForDecode]
  dsimp only
  rw [separator_print mid (by decide)]
  exact readValue_print rfl lead hv ht

theorem decode_eq_ok (h : decode ⟨b, .objectColon, stack⟩ = .ok (v, d')) :
    ∃ (mid lead : Blank) (t : Bytes),
      b = mid.print ++ 0x3a :: (lead.print ++ (v.print ++ t)) ∧ d' = ⟨t, .objectComma, stack⟩ := by
  unfold decode at h
  split at h
  · cases h
  next d₁ hd₁ =>
    obtain ⟨mid, t, hb, rfl⟩ := separator_eq_ok hd₁
    obtain ⟨lead, u, ht, rfl⟩ := readValue_eq_ok h
    dsimp only at hb ht
    rw [ht] at hb
    exact ⟨mid, lead, u, hb, rfl⟩

/-- `Decode` after the last value. -/
theorem decode_top_eq_eof :
    decode ⟨b, .topValue, stack⟩ = .error .eof ↔ ∃ w : Blank, b = w.print := by
  have hdecode : decode ⟨b, .topValue, stack⟩ = match decodeFirst b with
    | some (v, t) => .ok (v, ⟨t, .topValue, stack⟩)
    | none => .error (.ofRest b) := rfl
  rw [hdecode]
  constructor
  · intro h
    split at h
    · cases h
    · rw [StreamError.ofRest] at h
      split_ifs at h with heof
      · refine ⟨(skipBlank b).1, ?_⟩
        have hb := skipBlank_sound b
        rwa [List.isEmpty_iff.mp heof, List.append_nil] at hb
      · cases h
  · rintro ⟨w, rfl⟩
    have hskip : skipBlank w.print = (w, []) := by
      have h := skipBlank_print w noBlank_nil
      rwa [List.append_nil] at h
    have hnone : decodeFirst w.print = none := by
      rw [decodeFirst, hskip]
      cases w.print.length <;> rfl
    rw [hnone, StreamError.ofRest, atEOF, hskip]
    rfl

end Values

section Tokens
variable {s : TokenState} {stack : List TokenState} {t : Bytes} {d d' : Decoder}

theorem decodeFirst_quote (u : Bytes) :
    decodeFirst (0x22 :: u) = (scanStr u).map fun x => (.string x.1, x.2) := by
  have hskip : skipBlank (0x22 :: u) = ([], 0x22 :: u) :=
    skipBlank_print [] (noBlank_cons.mpr rfl)
  have hparse : parseValue (0x22 :: u).length (0x22 :: u) =
      (scanStr u).map fun x => (.string x.1, x.2) := rfl
  rw [decodeFirst, hskip, hparse]
  cases scanStr u with
  | none => rfl
  | some x => exact if_pos (Nat.zero_le _)

theorem key_quote (u : Bytes) : key ⟨0x22 :: u, s, stack⟩ = match scanStr u with
    | some (k, t) => .ok (some (.string k.unquote), ⟨t, .objectColon, stack⟩)
    | none => .error .invalid := by
  have hkey : key ⟨0x22 :: u, s, stack⟩ = match (match decodeFirst (0x22 :: u) with
      | some (v, t) => .ok (v, ⟨t, .topValue, stack⟩)
      | none => .error (.ofRest (0x22 :: u)) : Except StreamError (Value × Decoder)) with
    | .error e => .error e
    | .ok (v, d) => .ok (some (.ofValue v), { d with state := .objectColon }) := rfl
  rw [hkey, decodeFirst_quote]
  cases scanStr u with
  | none => rfl
  | some x => rfl

theorem tokenRound_open (w : Blank) (t : Bytes) :
    tokenRound ⟨w.print ++ 0x7b :: t, .topValue, stack⟩ =
      .ok (some (.delim 0x7b), ⟨t, .objectStart, .topValue :: stack⟩) := by
  rw [tokenRound, peek_print w (by decide)]
  rfl

theorem tokenRound_close (hs : s = .objectStart ∨ s = .objectComma) (w : Blank) (t : Bytes)
    (outer : TokenState) : tokenRound ⟨w.print ++ 0x7d :: t, s, outer :: stack⟩ =
      .ok (some (.delim 0x7d), ⟨t, outer.valueEnd, stack⟩) := by
  rw [tokenRound, peek_print w (by decide)]
  obtain rfl | rfl := hs <;> rfl

theorem tokenRound_comma (w : Blank) (t : Bytes) :
    tokenRound ⟨w.print ++ 0x2c :: t, .objectComma, stack⟩ =
      .ok (none, ⟨t, .objectKey, stack⟩) := by
  rw [tokenRound, peek_print w (by decide)]
  rfl

theorem tokenRound_name (hs : s = .objectStart ∨ s = .objectKey) (w : Blank) (k : Str) (t : Bytes) :
    tokenRound ⟨w.print ++ (k.print ++ t), s, stack⟩ =
      .ok (some (.string k.unquote), ⟨t, .objectColon, stack⟩) := by
  have hprint : k.print ++ t = 0x22 :: (k.body ++ 0x22 :: t) := by simp [Str.print]
  have hround : tokenRound ⟨w.print ++ 0x22 :: (k.body ++ 0x22 :: t), s, stack⟩ =
      key ⟨0x22 :: (k.body ++ 0x22 :: t), s, stack⟩ := by
    rw [tokenRound, peek_print w (by decide)]
    obtain rfl | rfl := hs <;> rfl
  rw [hprint, hround, key_quote, scanStr_print]

/-- All that a round of `Token` can do inside an object, at a name or after a value. -/
inductive ObjectRound (d : Decoder) : Option StreamToken × Decoder → Prop
  | close (hs : d.state = .objectStart ∨ d.state = .objectComma) (w : Blank) (t : Bytes)
    (outer : TokenState) (stack : List TokenState) (hrest : d.rest = w.print ++ 0x7d :: t)
    (hstack : d.stack = outer :: stack) :
    ObjectRound d (some (.delim 0x7d), ⟨t, outer.valueEnd, stack⟩)
  | comma (hs : d.state = .objectComma) (w : Blank) (t : Bytes)
    (hrest : d.rest = w.print ++ 0x2c :: t) : ObjectRound d (none, ⟨t, .objectKey, d.stack⟩)
  | name (hs : d.state = .objectStart ∨ d.state = .objectKey) (w : Blank) (k : Str) (t : Bytes)
    (hrest : d.rest = w.print ++ (k.print ++ t)) :
    ObjectRound d (some (.string k.unquote), ⟨t, .objectColon, d.stack⟩)

theorem name_of_key {w : Blank} {r : Option StreamToken × Decoder}
    (hs : d.state = .objectStart ∨ d.state = .objectKey) (hrest : d.rest = w.print ++ 0x22 :: t)
    (h : key { d with rest := 0x22 :: t } = .ok r) : ObjectRound d r := by
  rw [key_quote] at h
  split at h
  next k u hk =>
    rw [← Except.ok.inj h]
    refine .name hs w k u ?_
    rw [hrest, scanStr_sound hk, Str.print]
    simp
  · cases h

theorem objectRound_of_tokenRound {r : Option StreamToken × Decoder}
    (hs : d.state = .objectStart ∨ d.state = .objectKey ∨ d.state = .objectComma)
    (h : d.tokenRound = .ok r) : ObjectRound d r := by
  have hvalue : d.state.valueAllowed = false := by
    obtain hs | hs | hs := hs <;> rw [hs] <;> rfl
  unfold tokenRound at h
  split at h
  · cases h
  next c d₁ hp =>
    obtain ⟨w, t, hrest, rfl⟩ := peek_eq_ok hp
    by_cases h1 : c = 0x5b
    · simp [h1, opening, hvalue] at h
    by_cases h2 : c = 0x5d
    · obtain hs | hs | hs := hs <;> simp [h2, closing, hs] at h
    by_cases h3 : c = 0x7b
    · simp [h3, opening, hvalue] at h
    by_cases h4 : c = 0x7d
    · subst h4
      have hclose : closing { d with rest := 0x7d :: t } 0x7d .objectStart .objectComma = .ok r := h
      unfold closing at hclose
      split_ifs at hclose with hstate
      split at hclose
      next outer stack hstack =>
        rw [← Except.ok.inj hclose]
        exact ObjectRound.close (d := d) hstate w t outer stack hrest hstack
      · cases hclose
    by_cases h5 : c = 0x3a
    · obtain hs | hs | hs := hs <;> simp [h5, hs] at h
    by_cases h6 : c = 0x2c
    · subst h6
      obtain hs | hs | hs := hs
      · simp [hs] at h
      · simp [hs] at h
      · simp only [hs] at h
        rw [← Except.ok.inj h]
        exact .comma hs w t hrest
    by_cases h7 : c = 0x22
    · subst h7
      obtain hs | hs | hs := hs
      · exact name_of_key (.inl hs) hrest (by simpa [hs] using h)
      · exact name_of_key (.inr hs) hrest (by simpa [hs] using h)
      · simp [hs, TokenState.valueAllowed] at h
    · simp [h1, h2, h3, h4, h5, h6, h7, hvalue] at h

theorem token_of_round {t : StreamToken} (h : d.tokenRound = .ok (some t, d')) :
    d.token = .ok (t, d') := by
  rw [token, tokenRounds, h]

/-- The text between what was read of an object and the next name. -/
inductive Lead : TokenState → Bytes → Prop
  | start : Lead .objectStart []
  | comma (w : Blank) : Lead .objectComma (w.print ++ [0x2c])

theorem token_print {lead : Bytes} (hlead : Lead s lead) (w : Blank) (k : Str) (t : Bytes) :
    token ⟨lead ++ (w.print ++ (k.print ++ t)), s, stack⟩ =
      .ok (.string k.unquote, ⟨t, .objectColon, stack⟩) := by
  cases hlead with
  | start => exact token_of_round (tokenRound_name (.inl rfl) w k t)
  | comma post =>
    rw [List.append_assoc, List.singleton_append]
    obtain ⟨n, hn⟩ : ∃ n, (post.print ++ 0x2c :: (w.print ++ (k.print ++ t))).length + 1 = n + 2 :=
      ⟨post.print.length + (w.print ++ (k.print ++ t)).length, by
        rw [List.length_append, List.length_cons]
        omega⟩
    rw [token, hn, tokenRounds, tokenRound_comma]
    dsimp only
    rw [tokenRounds, tokenRound_name (.inr rfl)]

/-- All that `Token` can return inside an object, before a member or the end. -/
inductive ObjectToken (d : Decoder) : StreamToken × Decoder → Prop
  | close (w : Blank) (t : Bytes) (outer : TokenState) (stack : List TokenState)
    (hrest : d.rest = w.print ++ 0x7d :: t) (hstack : d.stack = outer :: stack) :
    ObjectToken d (.delim 0x7d, ⟨t, outer.valueEnd, stack⟩)
  | name (lead : Bytes) (hlead : Lead d.state lead) (w : Blank) (k : Str) (t : Bytes)
    (hrest : d.rest = lead ++ (w.print ++ (k.print ++ t))) :
    ObjectToken d (.string k.unquote, ⟨t, .objectColon, d.stack⟩)

theorem objectToken_of_token {r : StreamToken × Decoder}
    (hs : d.state = .objectStart ∨ d.state = .objectComma) (h : d.token = .ok r) :
    ObjectToken d r := by
  have hs' : d.state = .objectStart ∨ d.state = .objectKey ∨ d.state = .objectComma :=
    hs.imp_right .inr
  rw [token, tokenRounds] at h
  split at h
  · cases h
  next tok d₁ hround =>
    rw [← Except.ok.inj h]
    cases objectRound_of_tokenRound hs' hround with
    | close _ w t outer stack hrest hstack => exact .close w t outer stack hrest hstack
    | name hstate w k t hrest =>
      obtain hstart | hcomma := hs
      · exact .name [] (hstart ▸ .start) w k t hrest
      · rw [hcomma] at hstate
        simp at hstate
  next d₁ hround =>
    cases objectRound_of_tokenRound hs' hround with
    | comma hstate w t hrest =>
      generalize d.rest.length = n at h
      cases n with
      | zero => cases h
      | succ n =>
        rw [tokenRounds] at h
        split at h
        · cases h
        next tok d₂ hround₂ =>
          rw [← Except.ok.inj h]
          cases objectRound_of_tokenRound (.inr (.inl rfl)) hround₂ with
          | close hstate₂ => simp at hstate₂
          | name _ w₂ k t₂ hrest₂ =>
            dsimp only at hrest₂
            refine .name (w.print ++ [0x2c]) (hstate ▸ .comma w) w₂ k t₂ ?_
            rw [hrest, hrest₂, List.append_assoc]
            rfl
        next d₂ hround₂ =>
          cases objectRound_of_tokenRound (.inr (.inl rfl)) hround₂ with
          | comma hstate₂ => simp at hstate₂

theorem tokenRound_top {b : Bytes} {r : Option StreamToken × Decoder}
    (h : tokenRound ⟨b, .topValue, stack⟩ = .ok r) :
    (∃ (w : Blank) (t : Bytes), b = w.print ++ 0x7b :: t ∧
      r = (some (.delim 0x7b), ⟨t, .objectStart, .topValue :: stack⟩)) ∨
      ∃ tok d, r = (some tok, d) ∧ tok ≠ .delim 0x7b := by
  unfold tokenRound at h
  split at h
  · cases h
  next c d₁ hp =>
    obtain ⟨w, t, hrest, rfl⟩ := peek_eq_ok hp
    by_cases h1 : c = 0x5b
    · subst h1
      exact .inr ⟨_, _, (Except.ok.inj h).symm, by simp⟩
    by_cases h2 : c = 0x5d
    · simp [h2, closing] at h
    by_cases h3 : c = 0x7b
    · subst h3
      exact .inl ⟨w, t, hrest, (Except.ok.inj h).symm⟩
    by_cases h4 : c = 0x7d
    · simp [h4, closing] at h
    by_cases h5 : c = 0x3a
    · simp [h5] at h
    by_cases h6 : c = 0x2c
    · simp [h6] at h
    · simp only [h1, h2, h3, h4, h5, h6, if_false, reduceCtorEq, or_self, and_false,
        TokenState.valueAllowed, if_true] at h
      split at h
      · cases h
      next v d₁ _ =>
        refine .inr ⟨_, _, (Except.ok.inj h).symm, ?_⟩
        cases v <;> simp [StreamToken.ofValue]

/-- The token that opens an object. -/
theorem token_eq_open {b : Bytes} : token ⟨b, .topValue, stack⟩ = .ok (.delim 0x7b, d') ↔
    ∃ (w : Blank) (t : Bytes), b = w.print ++ 0x7b :: t ∧
      d' = ⟨t, .objectStart, .topValue :: stack⟩ := by
  constructor
  · intro h
    rw [token, tokenRounds] at h
    split at h
    · cases h
    next tok d₁ hround =>
      obtain ⟨w, t, hb, heq⟩ | ⟨tok', d₂, heq, hne⟩ := tokenRound_top hround
      · obtain ⟨htok, rfl⟩ := Prod.mk.inj heq
        obtain ⟨-, rfl⟩ := Prod.mk.inj (Except.ok.inj h)
        exact ⟨w, t, hb, rfl⟩
      · obtain ⟨htok, -⟩ := Prod.mk.inj heq
        obtain ⟨hdelim, -⟩ := Prod.mk.inj (Except.ok.inj h)
        exact absurd (Option.some.inj htok ▸ hdelim) hne
    next d₁ hround =>
      obtain ⟨w, t, hb, heq⟩ | ⟨tok', d₂, heq, hne⟩ := tokenRound_top hround
      · cases heq
      · cases heq
  · rintro ⟨w, t, rfl, rfl⟩
    exact token_of_round (tokenRound_open w t)

theorem more_print (w : Blank) {c : UInt8} (hc : Space.ofByte? c = none) (t : Bytes) :
    more ⟨w.print ++ c :: t, s, stack⟩ = (c ≠ 0x5d && c ≠ 0x7d) := by
  rw [more, peek_print w hc]

end Tokens

end Decoder

end IngestKit.Json

import IngestKit.Runenv.Memory
import IngestKit.Runenv.Stack

/-! The operations of a stack never touch what does not carry its token. -/
namespace IngestKit.Runenv
open Interference Transition

variable {σ ρ κ : Type} {V : Inventory σ ρ} {S : System Command Answer σ κ} {mine : Bytes → Prop}
  {G : σ → σ → Prop} {I : σ → Prop} {own : Bytes → Prop} {project : Bytes} {d d' : σ} {α β : Type}

/-- It carries a label of ours, or it is an anonymous volume of a container that does. -/
def Inventory.Ours (V : Inventory σ ρ) (own : Bytes → Prop) (d : σ) (r : ρ) : Prop :=
  own (V.label r) ∨
    ∃ id c, V.holder r = some id ∧ V.holds d (.container id) = some c ∧ own (V.label c)

/-- What carries a label of ours may change. A volume whose name the Compose files declare may also
change if it is not labelled with the project. -/
def Confined (V : Inventory σ ρ) (own : Bytes → Prop) (project : Bytes) (d d' : σ) : Prop :=
  ∀ k, V.holds d' k = V.holds d k ∨ ∃ r, V.holds d k = some r ∧
    (V.Ours own d r ∨ V.Declared project k ∧ V.project r ≠ project)

/-- Each label in the project. -/
def Each (V : Inventory σ ρ) (project : Bytes) (P : Key → Bytes → Prop) (d : σ) : Prop :=
  ∀ k r, V.holds d k = some r → V.project r = project → V.holder r = none → P k (V.label r)

def Owned (V : Inventory σ ρ) (own : Bytes → Prop) (project : Bytes) : σ → Prop :=
  Each V project fun _ label => own label

theorem Each.mono {P Q : Key → Bytes → Prop} (h : Each V project P d)
    (hPQ : ∀ k label, P k label → Q k label) : Each V project Q d :=
  fun k r hr hp hnone => hPQ k _ (h k r hr hp hnone)

/-- A property of the containers and volumes that others keep. -/
structure Steady (V : Inventory σ ρ) (S : System Command Answer σ κ) (I : σ → Prop) : Prop where
  others : ∀ c, S.Stable c I
  seen : ∀ d d', V.holds d' = V.holds d → I d → I d'

theorem Steady.and {J : σ → Prop} (hI : Steady V S I) (hJ : Steady V S J) :
    Steady V S fun d => I d ∧ J d where
  others c change d d' h hd := ⟨hI.others c change d d' h hd.1, hJ.others c change d d' h hd.2⟩
  seen d d' h hd := ⟨hI.seen d d' h hd.1, hJ.seen d d' h hd.2⟩

theorem steady_true : Steady V S fun _ => True where
  others _ _ _ _ _ _ := trivial
  seen _ _ _ _ := trivial

theorem steady_each (H : Conforms V S mine) {P : Key → Bytes → Prop} (hmine : mine project) :
    Steady V S (Each V project P) where
  others c change d d' h hd := by
    intro k r' hr' hp hnone
    obtain ⟨r, hr, hproject, hlabel, hholder⟩ :=
      (H.others c change d d' h project hmine).1 k r' hr' (.inl hp)
    rw [hlabel]
    exact hd k r hr (hproject.symm.trans hp) (hholder.symm.trans hnone)
  seen d d' h hd := by
    intro k r hr
    rw [h] at hr
    exact hd k r hr

/-- Every step of the function is as said, and so is its result. -/
def Ensures (S : System Command Answer σ κ) (G : σ → σ → Prop) (Q : Except Failure α → σ → Prop)
    (p : Go α) (d : σ) : Prop :=
  Safe S (fun _ _ => True) G Q p d

section Rules
variable {Q Q' : Except Failure α → σ → Prop} {R : Except Failure β → σ → Prop}
  {p : Go α} {f : α → Go β}

theorem ensures_ok {a : α} (h : Q (.ok a) d) : Ensures S G Q (Go.ok a) d := h

theorem ensures_fail {e : Failure} (h : Q (.error e) d) : Ensures S G Q (Go.fail e) d := h

theorem Ensures.mono (h : Ensures S G Q p d) (hQ : ∀ r d, Q r d → Q' r d) :
    Ensures S G Q' p d :=
  Safe.mono h hQ

theorem Ensures.bind {g : Except Failure α → Go β} (h : Ensures S G Q p d)
    (hg : ∀ r d, Q r d → Ensures S G R (g r) d) : Ensures S G R (Program.bind p g) d :=
  Safe.bind h hg

theorem Ensures.andThen (h : Ensures S G Q p d)
    (hok : ∀ a d, Q (.ok a) d → Ensures S G R (f a) d)
    (herror : ∀ e d, Q (.error e) d → R (.error e) d) : Ensures S G R (p.andThen f) d := by
  apply h.bind
  intro r d hr
  cases r with
  | ok a => exact hok a d hr
  | error e => exact herror e d hr

/-- A command, from a state with a property that others keep. -/
theorem ensures_perform {c : Command} {Q : Answer c → σ → Prop} (hI : Steady V S I) (hd : I d)
    (hG : ∀ d d', I d → S.Leads c d d' → G d d')
    (hQ : ∀ d, I d → Q (S.respond c d).1 (S.respond c d).2) :
    Safe S (fun _ _ => True) G Q
      (Program.perform c : Program Command Answer Unit (Answer c)) d := by
  apply safe_perform (I := I) (hI.others _) hd
  intro t ht _
  exact ⟨fun progress => hG t _ ht (.inr ⟨progress, rfl⟩), hG t _ ht (.inl rfl), hQ t ht⟩

end Rules

section Verify
variable {s : Stack} (H : Conforms V S mine)
  (hG : ∀ d d' : σ, V.holds d' = V.holds d → G d d')
include H hG

/-- A command that only reads. -/
theorem ensures_read {c : Command} {Q : Answer c → σ → Prop} (hc : c.controls? = none)
    (hup : c.isUp = false) (hI : Steady V S I) (hd : I d)
    (hQ : ∀ d d', I d → I d' → V.holds d' = V.holds d → d' = (S.respond c d).2 →
      Q (S.respond c d).1 d') :
    Safe S (fun _ _ => True) G Q
      (Program.perform c : Program Command Answer Unit (Answer c)) d := by
  apply ensures_perform hI hd
  · exact fun d d' _ h => hG d d' (H.reads c d d' hc hup h)
  · intro d hd
    have hsame := H.reads c d _ hc hup (.inl rfl)
    exact hQ d _ hd (hI.seen d _ hsame hd) hsame rfl

theorem ensures_inspect (name : Bytes) (hI : Steady V S I) (hd : I d) :
    Ensures S G (fun r d => I d ∧ ∀ label, r = .ok label →
      ∀ r, V.holds d (.container name) = some r → V.label r = label) (Go.inspect name) d := by
  apply ensures_read H hG rfl rfl hI hd
  intro d d' _ hd' hsame _
  rw [hsame]
  exact ⟨hd', H.inspect name d⟩

theorem ensures_volumeInspect (name : Bytes) (hI : Steady V S I) (hd : I d) :
    Ensures S G (fun r d => I d ∧ ∀ label, r = .ok label →
      ∀ r, V.holds d (.volume name) = some r → V.label r = label) (Go.volumeInspect name) d := by
  apply ensures_read H hG rfl rfl hI hd
  intro d d' _ hd' hsame _
  rw [hsame]
  exact ⟨hd', H.volumeInspect name d⟩

theorem ensures_ps (hI : Steady V S I) (hd : I d) :
    Ensures S G (fun r d => I d ∧ ∀ ids, r = .ok ids →
      Each V project (fun k _ => ∀ id, k = .container id → id ∈ ids) d) (Go.ps project) d := by
  apply ensures_read H hG rfl rfl hI hd
  intro d d' _ hd' hsame _
  refine ⟨hd', fun ids hids k r hr hp _ id hk => ?_⟩
  rw [hsame, hk] at hr
  exact H.ps project d ids hids id r hr hp

theorem ensures_volumeLs (hI : Steady V S I) (hd : I d) :
    Ensures S G (fun r d => I d ∧ ∀ names, r = .ok names →
      Each V project (fun k _ => ∀ name, k = .volume name → name ∈ names) d)
      (Go.volumeLs project) d := by
  apply ensures_read H hG rfl rfl hI hd
  intro d d' _ hd' hsame _
  refine ⟨hd', fun names hnames k r hr hp hnone name hk => ?_⟩
  rw [hsame, hk] at hr
  exact H.volumeLs project d names hnames name r hr hp hnone

omit hG in
/-- The label of each listed name is looked at, and others add no name. -/
theorem ensures_inspectAll {inspect : Bytes → Go Bytes} {key : Bytes → Key} {mismatch : String}
    (hmine : mine s.project) (hI : Steady V S I)
    (hinspect : ∀ (J : σ → Prop) (d : σ) (name : Bytes), Steady V S J → J d →
      Ensures S G (fun r d => J d ∧ ∀ label, r = .ok label →
        ∀ r, V.holds d (key name) = some r → V.label r = label) (inspect name) d)
    (howner : own s.token) (names : List Bytes)
    (hd : I d ∧ Each V s.project (fun k _ => ∀ name, k = key name → name ∈ names) d) :
    Ensures S G (fun r d => I d ∧ (r = .ok () →
        Each V s.project (fun k label => ∀ name, k = key name → own label) d))
      (s.inspectAll inspect mismatch names) d := by
  have hloop : ∀ (rest : List Bytes) (d : σ), I d ∧ Each V s.project (fun k label => ∀ name,
      k = key name → name ∈ rest ∨ own label) d →
      Ensures S G (fun r d => I d ∧ (r = .ok () →
        Each V s.project (fun k label => ∀ name, k = key name → own label) d))
      (s.inspectAll inspect mismatch rest) d := by
    intro rest
    induction rest with
    | nil =>
      intro d hd
      refine ensures_ok ⟨hd.1, fun _ => hd.2.mono fun k label h name hk => ?_⟩
      exact (h name hk).resolve_left (List.not_mem_nil)
    | cons x rest ih =>
      intro d hd
      have hsteady := hI.and (steady_each H
        (P := fun k label => ∀ name, k = key name → name ∈ x :: rest ∨ own label) hmine)
      have hlabel := (hinspect _ d x hsteady hd).andThen (f := fun label =>
        if label ≠ s.token then Go.fail { texts := [mismatch] } else Go.ok ())
        (R := fun r d => I d ∧ (r = .ok () → Each V s.project (fun k label => ∀ name,
          k = key name → name ∈ rest ∨ own label) d)) ?_ ?_
      · refine hlabel.andThen (fun _ d h => ih d ⟨h.1, h.2 rfl⟩) fun e d h => ⟨h.1, ?_⟩
        intro he
        cases he
      · rintro label d ⟨⟨hId, heach⟩, hprinted⟩
        split
        · exact ensures_fail ⟨hId, fun he => by cases he⟩
        · rename_i htoken
          refine ensures_ok ⟨hId, fun _ k r hr hp hnone name hk => ?_⟩
          rcases heach k r hr hp hnone name hk with hmem | howned
          · rcases List.mem_cons.mp hmem with rfl | hrest
            · have hlabel' := hprinted label rfl r (hk ▸ hr)
              rw [hlabel', not_not.mp htoken]
              exact .inr howner
            · exact .inl hrest
          · exact .inr howned
      · rintro e d ⟨⟨hId, -⟩, -⟩
        exact ⟨hId, fun he => by cases he⟩
  exact hloop names d ⟨hd.1, hd.2.mono fun k label h name hk => .inl (h name hk)⟩

omit H hG in
theorem ensures_compose {Q : Except Failure α → σ → Prop} {c : Bytes → Go α}
    (hc : Ensures S G Q (c s.project) d) (hfail : ∀ e, Q (.error e) d) :
    Ensures S G Q (s.compose c) d := by
  unfold Stack.compose
  split
  · exact ensures_fail (hfail _)
  · exact hc

/-- When the check passes, every container and volume of the project is ours. -/
theorem ensures_verifyOwner (hmine : mine s.project) (howner : own s.token)
    (hI : Steady V S I) (hd : I d) :
    Ensures S G (fun r d => I d ∧ (r = .ok () → Owned V own s.project d)) s.verifyOwner d := by
  have herror : ∀ {d : σ} {e : Failure}, I d →
      I d ∧ ((.error e : Except Failure Unit) = .ok () → Owned V own s.project d) :=
    fun h => ⟨h, fun he => by cases he⟩
  unfold Stack.verifyOwner
  split
  · exact ensures_fail (herror hd)
  · have hps : Ensures S G (fun r d => I d ∧ ∀ ids, r = .ok ids →
        Each V s.project (fun k _ => ∀ id, k = .container id → id ∈ ids) d) (s.compose Go.ps) d :=
      ensures_compose (ensures_ps H hG hI hd) fun e => ⟨hd, fun ids he => by cases he⟩
    refine hps.andThen (fun ids d hids => ?_) fun e d h => herror h.1
    refine (ensures_inspectAll H hmine hI (fun _ _ name hJ hd => ensures_inspect H hG name hJ hd)
      howner ids ⟨hids.1, hids.2 ids rfl⟩).andThen (fun _ d hcontainers => ?_) fun e d h =>
        herror h.1
    have hsteady := hI.and (steady_each H
      (P := fun k label => ∀ id, k = .container id → own label) hmine)
    refine (ensures_volumeLs H hG hsteady
      ⟨hcontainers.1, hcontainers.2 rfl⟩).andThen (fun names d hnames => ?_) fun e d h =>
        herror h.1.1
    refine (ensures_inspectAll H hmine hsteady (fun _ _ name hJ hd =>
      ensures_volumeInspect H hG name hJ hd) howner names ⟨hnames.1, hnames.2 names rfl⟩).mono ?_
    rintro r d ⟨⟨hId, hc⟩, hv⟩
    refine ⟨hId, fun hr k r' hr' hp hnone => ?_⟩
    cases k with
    | container id => exact hc _ r' hr' hp hnone id rfl
    | volume name => exact hv hr _ r' hr' hp hnone name rfl

/-- A command that stops, starts or removes something is only sent after the check. -/
theorem ensures_control {c : Bytes → Go Unit} {Q : Except Failure Unit → σ → Prop}
    (hmine : mine s.project) (howner : own s.token) (hI : Steady V S I) (hd : I d)
    (hc : ∀ d, I d ∧ Owned V own s.project d → Ensures S G Q (c s.project) d)
    (herror : ∀ e d, I d → Q (.error e) d) :
    Ensures S G Q (s.verifyOwner.andThen fun _ => s.compose c) d := by
  refine (ensures_verifyOwner H hG hmine howner hI hd).andThen (fun _ d h => ?_) fun e d h =>
    herror e d h.1
  exact ensures_compose (hc d ⟨h.1, h.2 rfl⟩) fun e => herror e d h.1

end Verify

theorem meets_true (w : Process Command Answer Unit (Except Failure α) σ) (a : Action Unit κ) :
    Meets (fun _ _ => True) w a := by
  cases a with
  | run => exact fun _ _ => trivial
  | stop progress e => exact fun _ _ => trivial
  | other change => trivial

/-- At every point of a run the function still ensures what it did. -/
theorem Ensures.run {Q : Except Failure α → σ → Prop} {p : Go α} (h : Ensures S G Q p d)
    (hQ : ∀ r, S.Stable none (Q r)) {l : List (Action Unit κ)}
    {w : Process Command Answer Unit (Except Failure α) σ}
    (hrun : execute S.step ⟨p, d⟩ l = some w) : Ensures S G Q w.program w.state :=
  (Safe.execute (I := fun _ => True) hQ (fun _ _ _ _ => trivial) (fun _ _ _ _ _ _ => trivial) h
    trivial hrun fun _ _ _ _ _ _ => meets_true _ _).2

section Operations

/-- A resource in a project in which every label is ours. -/
theorem ours_of_owned (H : Conforms V S mine) (h : Owned V own project d) {k : Key} {r : ρ}
    (hr : V.holds d k = some r) (hp : V.project r = project) (hstray : ¬V.Stray d r) :
    V.Ours own d r := by
  cases hholder : V.holder r with
  | none => exact .inl (h k r hr hp hholder)
  | some id =>
    cases hc : V.holds d (.container id) with
    | none => exact absurd ⟨id, hholder, hc⟩ hstray
    | some c =>
      have hproject : V.project c = project := (H.held d k r id c hr hholder hc).trans hp
      exact .inr ⟨id, c, hholder, hc, h _ c hc hproject (H.container d id c hc)⟩

theorem confined_of_controlled (H : Conforms V S mine) (hmine : mine project)
    (h : Owned V own project d) (hc : V.Controlled project d d') :
    Confined V own project d d' := by
  intro k
  rcases hc k with hsame | ⟨r, hr, hreached, -⟩
  · exact .inl hsame
  · refine .inr ⟨r, hr, ?_⟩
    rcases hreached with ⟨hp, hstray⟩ | hdeclared
    · exact .inl (ours_of_owned H h hr hp hstray)
    · by_cases hp : V.project r = project
      · cases k with
        | container id => exact hdeclared.elim
        | volume name =>
          exact .inl (.inl (h _ r hr hp (H.anonymous d name r project hr hmine hdeclared)))
      · exact .inr ⟨hdeclared, hp⟩

inductive Operation
  | stop
  | destroy
  | setServiceRunning (service : Option Service) (running : Bool)
  | killConsumer
  deriving DecidableEq

def Operation.run (s : Stack) : Operation → Go Unit
  | .stop => s.stop
  | .destroy => s.destroy
  | .setServiceRunning service running => s.setServiceRunning service running
  | .killConsumer => s.killConsumer

theorem ensures_operation (H : Conforms V S mine) (s : Stack) (op : Operation)
    (hmine : mine s.project) (d : σ) :
    Ensures S (Confined V (· = s.token) s.project) (fun _ _ => True) (op.run s) d := by
  have hsteady : Steady V S fun d => True ∧ Owned V (· = s.token) s.project d :=
    steady_true.and (steady_each H hmine)
  have hconfined : ∀ c : Command, c.controls? = some s.project → ∀ d d',
      True ∧ Owned V (· = s.token) s.project d → S.Leads c d d' →
        Confined V (· = s.token) s.project d d' := fun c hc d d' hd h =>
    confined_of_controlled H hmine hd.2 (H.control c _ d d' hc h)
  have hcontrol : ∀ perform : Bytes → Go Unit,
      (∀ d, True ∧ Owned V (· = s.token) s.project d →
        Ensures S (Confined V (· = s.token) s.project) (fun _ _ => True) (perform s.project) d) →
      Ensures S (Confined V (· = s.token) s.project) (fun _ _ => True)
        (s.verifyOwner.andThen fun _ => s.compose perform) d := by
    intro perform hperform
    refine ensures_control H ?_ hmine ?_ steady_true trivial hperform fun _ _ _ => trivial
    · exact fun d d' h k => .inl (congrFun h k)
    · rfl
  cases op with
  | stop =>
    apply hcontrol
    intro d hd
    exact ensures_perform hsteady hd (hconfined _ rfl) fun _ _ => trivial
  | destroy =>
    apply hcontrol
    intro d hd
    exact ensures_perform hsteady hd (hconfined _ rfl) fun _ _ => trivial
  | setServiceRunning service running =>
    cases service with
    | none => exact ensures_fail trivial
    | some name =>
      apply hcontrol
      intro d hd
      exact ensures_perform hsteady hd (hconfined _ rfl) fun _ _ => trivial
  | killConsumer =>
    apply hcontrol
    intro d hd
    exact ensures_perform hsteady hd (hconfined _ rfl) fun _ _ => trivial

end Operations

/-- On a daemon that conforms, whatever else it holds, wherever commands fail or are killed, and
whatever others do in other projects, no step of an operation creates anything, and none changes
or removes what does not carry the token, except a declared volume that no label protects. -/
theorem operation_spares_others (H : Conforms V S mine) (s : Stack) (op : Operation)
    (hmine : mine s.project) (d : σ) (l : List (Action Unit κ))
    (w v : Process Command Answer Unit _ σ)
    (hrun : execute S.step ⟨op.run s, d⟩ l = some w) (a : Action Unit κ)
    (hstep : S.step w a = some v) (hown : a.own = true) :
    Confined V (· = s.token) s.project w.state v.state := by
  have hstable : ∀ r : Except Failure Unit, S.Stable none fun _ => True :=
    fun _ _ _ _ _ _ => trivial
  have hsafe := (ensures_operation H s op hmine d).run hstable hrun
  exact (hsafe.step hstable (meets_true w a) hstep).2 hown

def sampleProject : Bytes := projectPrefix ++ [0x61]

def sampleVolume : Bytes := sampleProject ++ ascii
  ['_', 'p', 'o', 's', 't', 'g', 'r', 'e', 's', '_', 'd', 'a', 't', 'a']

def sampleStack : Stack := ⟨sampleProject, sampleProject, [0x74], true⟩

/-- Two containers, a declared and an anonymous volume of the stack, and a container of others. -/
def sampleMemory : Memory.State where
  entries := [(.container [0x31], ⟨sampleProject, [0x74], none, some .api⟩),
    (.container [0x39], ⟨[0x62], [0x75], none, some .consumer⟩),
    (.volume [0x78], ⟨sampleProject, [], some [0x31], none⟩),
    (.container [0x32], ⟨sampleProject, [0x74], none, some .consumer⟩),
    (.volume sampleVolume, ⟨sampleProject, [0x74], none, none⟩)]
  wellFormed := by decide
  stopped := []
  plan := []
  fate := .succeeds

/-- The labels are looked at, and `down` is to stop after three resources. -/
def sampleDestroy : List (Action Unit Memory.Change) :=
  [.run, .run, .run, .run, .run, .other (.fate (.fails false 3))]

theorem operation_spares_others_sample :
    ∃ w v, execute (Memory.daemon [sampleProject]).step
        ⟨Operation.destroy.run sampleStack, sampleMemory⟩ sampleDestroy = some w ∧
      w.program.next = some (.down sampleProject) ∧
      (Memory.daemon [sampleProject]).step w .run = some v ∧
      Confined Memory.inventory (· = [0x74]) sampleProject w.state v.state ∧
      v.state.entries.map Prod.fst = [.container [0x39], .volume sampleVolume] :=
  ⟨_, _, rfl, rfl, rfl, operation_spares_others (Memory.conforms_daemon [sampleProject]) sampleStack
    .destroy List.mem_cons_self sampleMemory sampleDestroy _ _ rfl .run rfl rfl, rfl⟩

end IngestKit.Runenv

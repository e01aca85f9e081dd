import Mathlib.Data.List.Nodup
import Mathlib.Data.List.Perm.Basic

/-!
# Resources and their owners

A finite stock of resources, each of which is free or owned by one part of a system. What
a part owns, and whether it is in order, is read from a store. A step takes some parts to
others, and may take free resources and give some back.

`Steps` says of a step that it does so whatever else there is; hence the rules:

* `Steps.trans`: one step after the other;
* `Steps.frame`: beside parts that the step does not touch;
* `Shared.steps`: a whole system, all of whose resources are accounted for, stays one;
* `Shared.apart`: what the other parts own is not touched.
-/

namespace Shmipc.Common

/-- The resources `all`, and parts that own them according to a store. -/
structure Ownership (σ ι π : Type*) where
  all : List ι
  nodup : all.Nodup
  owns : σ → π → List ι
  /-- The part is in order. -/
  Ok : σ → π → Prop
  /-- The resources in the list are the free ones. -/
  Free : σ → List ι → Prop
  /-- The resources outside of the list are as they were. -/
  Keeps : List ι → σ → σ → Prop
  keeps_refl : ∀ T s, Keeps T s s
  keeps_mono : ∀ {T T' s s'}, Keeps T s s' → (∀ a ∈ T, a ∈ T') → Keeps T' s s'
  keeps_trans : ∀ {T s s' s''}, Keeps T s s' → Keeps T s' s'' → Keeps T s s''
  /-- A part depends on its own resources only. -/
  keep : ∀ {T s s' p}, Ok s p → Keeps T s s' → (∀ a ∈ owns s p, a ∉ T) →
    Ok s' p ∧ owns s' p = owns s p

namespace Ownership

variable {σ ι π : Type*} (O : Ownership σ ι π)

def ownsAll (s : σ) (ps : List π) : List ι := ps.flatMap (O.owns s)

/-- The step from `s` to `s'` takes the parts `olds` to `news`, whatever `others` own. -/
def Steps (s : σ) (olds : List π) (s' : σ) (news : List π) : Prop :=
  (∀ p ∈ olds, O.Ok s p) → ∀ others free, O.Free s free →
    (O.ownsAll s olds ++ (others ++ free)).Perm O.all →
    ∃ free', O.Free s' free' ∧ (O.ownsAll s' news ++ (others ++ free')).Perm O.all ∧
      O.Keeps (O.ownsAll s olds ++ free) s s' ∧ ∀ p ∈ news, O.Ok s' p

/-- All parts are in order, and every resource is free or owned by exactly one of them. -/
def Shared (s : σ) (ps : List π) : Prop :=
  (∀ p ∈ ps, O.Ok s p) ∧ ∃ free, O.Free s free ∧ (O.ownsAll s ps ++ free).Perm O.all

section Rules

variable {O} {s s' s'' : σ} {olds mids news rest ps ps' : List π} {free : List ι}

theorem ownsAll_append (s : σ) (ps ps' : List π) :
    O.ownsAll s (ps ++ ps') = O.ownsAll s ps ++ O.ownsAll s ps' := List.flatMap_append

theorem ownsAll_perm (s : σ) (h : ps.Perm ps') : (O.ownsAll s ps).Perm (O.ownsAll s ps') :=
  h.flatMap_right _

theorem Steps.refl (s : σ) (ps : List π) : O.Steps s ps s ps := by
  intro hok others free hfree hall
  exact ⟨free, hfree, hall, O.keeps_refl _ _, hok⟩

theorem Steps.trans (h : O.Steps s olds s' mids) (h' : O.Steps s' mids s'' news) :
    O.Steps s olds s'' news := by
  intro hok others free hfree hall
  obtain ⟨free₁, hfree₁, hall₁, hkeep₁, hok₁⟩ := h hok others free hfree hall
  obtain ⟨free₂, hfree₂, hall₂, hkeep₂, hok₂⟩ := h' hok₁ others free₁ hfree₁ hall₁
  refine ⟨free₂, hfree₂, hall₂, O.keeps_trans hkeep₁ (O.keeps_mono hkeep₂ fun a ha => ?_), hok₂⟩
  -- the parts in between have what the old ones had, or what was free
  have hnd := hall₁.nodup_iff.mpr O.nodup
  have hin := (hall.trans hall₁.symm).mem_iff (a := a)
  simp only [List.nodup_append, List.mem_append] at hnd hin ha ⊢
  grind

/-- **Frame rule.** -/
theorem Steps.frame (h : O.Steps s olds s' news) (rest : List π) :
    O.Steps s (olds ++ rest) s' (news ++ rest) := by
  intro hok others free hfree hall
  rw [ownsAll_append] at hall
  obtain ⟨free', hfree', hall', hkeep, hnews⟩ := h (fun p hp => hok p (List.mem_append_left _ hp))
    (O.ownsAll s rest ++ others) free hfree (by simpa only [List.append_assoc] using hall)
  have hnd := hall.nodup_iff.mpr O.nodup
  have hrest : ∀ p ∈ rest, O.Ok s' p ∧ O.owns s' p = O.owns s p := by
    intro p hp
    refine O.keep (hok p (List.mem_append_right _ hp)) hkeep fun a ha hT => ?_
    have hin : a ∈ O.ownsAll s rest := List.mem_flatMap.mpr ⟨p, hp, ha⟩
    simp only [List.nodup_append, List.mem_append] at hnd hT
    grind
  have hsame : O.ownsAll s' rest = O.ownsAll s rest :=
    List.flatMap_congr fun p hp => (hrest p hp).2
  refine ⟨free', hfree', ?_, O.keeps_mono hkeep fun a ha => ?_, fun p hp => ?_⟩
  · rw [ownsAll_append, hsame]
    simpa only [List.append_assoc] using hall'
  · rw [ownsAll_append]
    simp only [List.mem_append] at ha ⊢
    tauto
  · rcases List.mem_append.mp hp with hp | hp
    · exact hnews p hp
    · exact (hrest p hp).1

theorem Steps.perm (h : O.Steps s olds s' news) (ho : ps.Perm olds) (hn : ps'.Perm news) :
    O.Steps s ps s' ps' := by
  intro hok others free hfree hall
  have hT := ownsAll_perm (O := O) s ho
  obtain ⟨free', hfree', hall', hkeep, hnews⟩ := h (fun p hp => hok p (ho.mem_iff.mpr hp)) others free
    hfree ((hT.symm.append_right _).trans hall)
  refine ⟨free', hfree', ((ownsAll_perm s' hn).append_right _).trans hall', ?_,
    fun p hp => hnews p (hn.mem_iff.mp hp)⟩
  refine O.keeps_mono hkeep fun a ha => ?_
  rw [List.mem_append] at ha ⊢
  exact ha.imp hT.mem_iff.mpr id

theorem Shared.perm (h : O.Shared s ps) (hp : ps'.Perm ps) : O.Shared s ps' := by
  obtain ⟨hok, free, hfree, hall⟩ := h
  exact ⟨fun p hpm => hok p (hp.mem_iff.mp hpm), free, hfree,
    ((ownsAll_perm s hp).append_right _).trans hall⟩

/-- **System rule.** -/
theorem Shared.steps (h : O.Shared s (olds ++ rest)) (hs : O.Steps s olds s' news) :
    O.Shared s' (news ++ rest) := by
  obtain ⟨hok, free, hfree, hall⟩ := h
  obtain ⟨free', hfree', hall', -, hnews⟩ := hs.frame rest hok [] free hfree hall
  exact ⟨hnews, free', hfree', hall'⟩

theorem Shared.apart (h : O.Shared s (olds ++ rest)) (hs : O.Steps s olds s' news) :
    ∃ T, O.Keeps T s s' ∧ ∀ p ∈ rest, ∀ a ∈ O.owns s p, a ∉ T := by
  obtain ⟨hok, free, hfree, hall⟩ := h
  rw [ownsAll_append, List.append_assoc] at hall
  obtain ⟨-, -, -, hkeep, -⟩ := hs (fun p hp => hok p (List.mem_append_left _ hp)) _ free hfree hall
  refine ⟨_, hkeep, fun p hp a ha hT => ?_⟩
  have hin : a ∈ O.ownsAll s rest := List.mem_flatMap.mpr ⟨p, hp, ha⟩
  have hnd := hall.nodup_iff.mpr O.nodup
  simp only [List.nodup_append, List.mem_append] at hnd hT
  grind

end Rules

end Ownership

end Shmipc.Common

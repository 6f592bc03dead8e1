import Mathlib.Data.Set.Basic
import Mathlib.Logic.Relation

namespace AlfredProcessing.Lib.Reach

open Relation

variable {α : Type*} {R : α → α → Prop} {start nodes group : Set α} {a b : α}

/-- `b` is where the steps lead from a starting point. -/
def Reached (R : α → α → Prop) (start : Set α) (b : α) : Prop := ∃ a ∈ start, ReflTransGen R a b

/-- A group of nodes without a starting point that no step enters from outside. -/
structure Detached (R : α → α → Prop) (start nodes group : Set α) : Prop where
  nonempty : group.Nonempty
  declared : group ⊆ nodes
  apart : ∀ a ∈ group, a ∉ start
  closed : ∀ a b, R a b → b ∈ group → a ∈ group

theorem Reached.of_start (h : a ∈ start) : Reached R start a := ⟨a, h, .refl⟩

theorem Reached.tail (ha : Reached R start a) (hab : R a b) : Reached R start b := by
  obtain ⟨s, hs, hpath⟩ := ha
  exact ⟨s, hs, hpath.tail hab⟩

theorem Detached.not_reached (h : Detached R start nodes group) (hb : b ∈ group) : ¬Reached R start b := by
  rintro ⟨s, hs, hpath⟩
  induction hpath with
  | refl => exact h.apart s hb hs
  | tail _ hstep ih => exact ih (h.closed _ _ hstep hb)

/-- All nodes are reached just when none of their groups is detached: what is not reached
is such a group. -/
theorem all_reached_iff (hnodes : ∀ a b, R a b → a ∈ nodes) :
    (∀ b ∈ nodes, Reached R start b) ↔ ∀ group, ¬Detached R start nodes group := by
  constructor
  · intro hall group hgroup
    obtain ⟨b, hb⟩ := hgroup.nonempty
    exact hgroup.not_reached hb (hall b (hgroup.declared hb))
  · intro hnone b hb
    by_contra hfar
    refine hnone { a | a ∈ nodes ∧ ¬Reached R start a } ?_
    refine ⟨⟨b, hb, hfar⟩, fun a ha => ha.1, fun a ha hs => ha.2 (.of_start hs), ?_⟩
    intro a c hac hc
    exact ⟨hnodes a c hac, fun ha => hc.2 (ha.tail hac)⟩

end AlfredProcessing.Lib.Reach

import Mathlib.Data.List.Basic
import Mathlib.Tactic

/-!
# Edges of a sampled signal

A signal of two levels is sampled. What is told of it are its edges: a rise when
the level before was low and the sample is high, a fall the other way. The edges
alternate whatever is sampled, and the last sample is the level that stays.
-/
namespace Library.Edges

inductive Edge where
  | rise
  | fall
  deriving DecidableEq, Repr

/-- The edge between one level and the next. -/
def edge : Bool → Bool → Option Edge
  | false, true => some .rise
  | true, false => some .fall
  | _, _ => none

/-- The edges of a list of samples, from a level on. -/
def edges : Bool → List Bool → List Edge
  | _, [] => []
  | was, now :: rest => (edge was now).toList ++ edges now rest

/-- The level after the samples. -/
def level (was : Bool) (samples : List Bool) : Bool := samples.getLast?.getD was

/-- A rise where the level is low, a fall where it is high, in turns. -/
def Alternate : Bool → List Edge → Prop
  | _, [] => True
  | false, .rise :: es => Alternate true es
  | true, .fall :: es => Alternate false es
  | _, _ => False

theorem edge_eq_rise {was now : Bool} : edge was now = some .rise ↔ was = false ∧ now = true := by
  cases was <;> cases now <;> simp [edge]

theorem edge_eq_fall {was now : Bool} : edge was now = some .fall ↔ was = true ∧ now = false := by
  cases was <;> cases now <;> simp [edge]

@[simp] theorem level_nil (was : Bool) : level was [] = was := rfl

@[simp] theorem level_append (was now : Bool) (samples : List Bool) :
    level was (samples ++ [now]) = now := by
  rw [level, List.getLast?_concat, Option.getD_some]

theorem level_cons (was now : Bool) (rest : List Bool) :
    level was (now :: rest) = level now rest := by
  cases rest with
  | nil => rfl
  | cons b rest => rw [level, level, List.getLast?_cons_cons, List.getLast?_cons]; rfl

theorem edges_append (was now : Bool) (samples : List Bool) :
    edges was (samples ++ [now]) =
      edges was samples ++ (edge (level was samples) now).toList := by
  induction samples generalizing was with
  | nil => simp only [List.nil_append, edges, level_nil, List.append_nil]
  | cons b rest ih =>
      rw [List.cons_append, edges, edges, ih b, level_cons, List.append_assoc]

/-- A signal cannot rise twice without falling in between. -/
theorem alternate_edges (was : Bool) (samples : List Bool) : Alternate was (edges was samples) := by
  induction samples generalizing was with
  | nil => exact trivial
  | cons now rest ih =>
      have hrest := ih now
      cases was with
      | false =>
          cases now with
          | false => exact hrest
          | true => exact hrest
      | true =>
          cases now with
          | false => exact hrest
          | true => exact hrest

end Library.Edges

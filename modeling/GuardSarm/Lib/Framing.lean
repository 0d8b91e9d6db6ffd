import Mathlib

/-! Length-prefixed frames. A stream is cut into the payloads of its frames and a rest; where
the rest is short of a frame, or starts with a header that is too large, there is no other
way to cut it. -/
namespace GuardSarm

/-- A form of frames: the width of a header, the length of the payload it announces, and the greatest
length. -/
structure Framing (α : Type*) where
  width : Nat
  size : List α → Nat
  limit : Nat

namespace Framing

variable {α : Type*} {f : Framing α} {stream rest rest' more : List α} {messages messages' : List (List α)}

/-- The stream is the frames with these payloads, and then the rest. -/
inductive Cut (f : Framing α) : List α → List (List α) → List α → Prop
  | nil (rest : List α) : Cut f rest [] rest
  | cons (header payload : List α) {stream : List α} {messages : List (List α)} {rest : List α} :
      header.length = f.width → f.size header = payload.length → payload.length ≤ f.limit →
      Cut f stream messages rest → Cut f (header ++ (payload ++ stream)) (payload :: messages) rest

/-- Part of a header, or a header and part of its payload. -/
def Short (f : Framing α) (rest : List α) : Prop :=
  rest.length < f.width ∨
    f.size (rest.take f.width) ≤ f.limit ∧ rest.length < f.width + f.size (rest.take f.width)

def Oversized (f : Framing α) (rest : List α) : Prop :=
  f.width ≤ rest.length ∧ f.limit < f.size (rest.take f.width)

theorem Cut.append (first : f.Cut stream messages rest) (second : f.Cut rest messages' rest') :
    f.Cut stream (messages ++ messages') rest' := by
  induction first with
  | nil => exact second
  | cons header payload wide sized small _ ih => exact .cons header payload wide sized small (ih second)

theorem Cut.extend (cut : f.Cut stream messages rest) (more : List α) :
    f.Cut (stream ++ more) messages (rest ++ more) := by
  induction cut with
  | nil rest => exact .nil (rest ++ more)
  | cons header payload wide sized small _ ih =>
    rw [List.append_assoc, List.append_assoc]
    exact .cons header payload wide sized small ih

open List in
/-- A stream that ends in whole frames is cut in one way, and so is every start of it. -/
theorem Cut.of_whole (wide : 0 < f.width) (cut : f.Cut stream messages rest)
    (whole : f.Cut (stream ++ more) messages' []) :
    messages <+: messages' ∧ ¬f.Oversized rest ∧ (more = [] → f.Short rest → messages = messages') := by
  induction cut generalizing messages' with
  | nil rest =>
    generalize all : rest ++ more = full at whole
    cases whole with
    | nil =>
      obtain ⟨rfl, rfl⟩ := append_eq_nil_iff.mp all
      exact ⟨ nil_prefix, fun large => absurd large.1 (Nat.not_le.mpr wide), fun _ _ => rfl⟩
    | cons header payload long sized small _ =>
      have first (room : f.width ≤ rest.length) : rest.take f.width = header := by
        rw [← take_append_of_le_length room, all, ← long, take_left]
      refine ⟨ nil_prefix, fun large => ?_, fun nothing short => ?_⟩
      · rw [Oversized, first large.1, sized] at large
        omega
      · have length := congrArg List.length all
        simp only [nothing, length_append, length_nil] at length
        rw [Short, first (by omega), sized] at short
        omega
  | cons header payload long sized _ _ ih =>
    generalize all : header ++ (payload ++ _) ++ more = full at whole
    cases whole with
    | nil =>
      have length := congrArg List.length all
      simp only [length_append, length_nil] at length
      omega
    | cons header' payload' long' sized' _ later =>
      rw [append_assoc, append_assoc] at all
      obtain ⟨rfl, behind⟩ := append_inj all (long.trans long'.symm)
      obtain ⟨rfl, rfl⟩ := append_inj behind (sized.symm.trans sized')
      obtain ⟨front, fits, ends⟩ := ih later
      refine ⟨cons_prefix_cons.mpr ⟨rfl, front⟩, fits, fun nothing short => ?_⟩
      rw [ends nothing short]

end Framing

end GuardSarm

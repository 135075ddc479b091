import Mathlib.Data.List.Basic

variable {α : Type} {first exempt : α → Prop}

/-- Everything in the list that is not exempt is `first` or comes after an element
that is. -/
def Precedes (first exempt : α → Prop) (l : List α) : Prop :=
  ∀ front x, front ++ [x] <+: l → ¬exempt x → first x ∨ ∃ y ∈ front, first y

namespace Precedes

theorem nil : Precedes first exempt [] := by
  intro front x hx
  have hlen := hx.length_le
  simp at hlen

theorem front {l l' : List α} (h : Precedes first exempt l) (hl : l' <+: l) :
    Precedes first exempt l' :=
  fun front x hx => h front x (hx.trans hl)

/-- At the end may follow what is exempt, what is `first`, and anything once
something was `first`. -/
theorem snoc {l : List α} {x : α} (h : Precedes first exempt l)
    (hx : exempt x ∨ first x ∨ ∃ y ∈ l, first y) : Precedes first exempt (l ++ [x]) := by
  intro before y hy hexempt
  rcases List.prefix_concat_iff.mp hy with heq | hold
  · obtain ⟨rfl, rfl⟩ := List.append_singleton_inj.mp heq
    exact hx.resolve_left hexempt
  · exact h before y hold hexempt

end Precedes

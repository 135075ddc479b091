import Mathlib.Data.List.Basic

namespace CopyWithin

variable {α : Type}

/-- One element is read and written. -/
def copyOne (v : List α) (src dest : Nat) : List α := v[src]?.elim v (v.set dest ·)

/-- The first `n` elements of a copy from the front on. -/
def copyForward (v : List α) (src dest : Nat) : Nat → List α
  | 0 => v
  | n + 1 => copyOne (copyForward v src dest n) (src + n) (dest + n)

/-- The last of `n` elements is copied first. -/
def copyBackward (v : List α) (src dest : Nat) : Nat → List α
  | 0 => v
  | n + 1 => copyBackward (copyOne v (src + n) (dest + n)) src dest n

/-- The elements move one by one, in the direction in which none is overwritten
before it was read. -/
def memmove (v : List α) (src dest n : Nat) : List α :=
  if dest ≤ src then copyForward v src dest n else copyBackward v src dest n

/-- `slice::copy_within(start..stop, dest)`; `none` where it panics. -/
def copyWithin (v : List α) (start stop dest : Nat) : Option (List α) :=
  if start ≤ stop ∧ stop ≤ v.length ∧ dest + (stop - start) ≤ v.length then
    some (memmove v start dest (stop - start))
  else none

theorem copyOne_eq {v : List α} {src dest : Nat} {x : α} (h : v[src]? = some x) :
    copyOne v src dest = v.set dest x := by
  rw [copyOne, h, Option.elim_some]

theorem getElem?_copyOne {v : List α} {src dest : Nat} (hsrc : src < v.length)
    (hdest : dest < v.length) (i : Nat) :
    (copyOne v src dest)[i]? = if i = dest then v[src]? else v[i]? := by
  have hx : v[src]? = some v[src] := List.getElem?_eq_getElem hsrc
  rw [copyOne_eq hx, List.getElem?_set]
  by_cases hi : i = dest
  · subst hi
    rw [if_pos rfl, if_pos hdest, if_pos rfl, hx]
  · rw [if_neg (Ne.symm hi), if_neg hi]

@[simp] theorem length_copyOne (v : List α) (src dest : Nat) :
    (copyOne v src dest).length = v.length := by
  unfold copyOne
  cases v[src]? with
  | none => rfl
  | some x => exact List.length_set

@[simp] theorem length_copyForward (v : List α) (src dest n : Nat) :
    (copyForward v src dest n).length = v.length := by
  induction n with
  | zero => rfl
  | succ n ih => rw [copyForward, length_copyOne, ih]

/-- Copied towards the front, the element read next is still the original one. -/
theorem getElem?_copyForward {v : List α} {src dest n : Nat} (hle : dest ≤ src)
    (hsrc : src + n ≤ v.length) (i : Nat) :
    (copyForward v src dest n)[i]? =
      if dest ≤ i ∧ i < dest + n then v[src + (i - dest)]? else v[i]? := by
  induction n generalizing i with
  | zero => rw [copyForward, if_neg (by omega)]
  | succ n ih =>
    have hw := length_copyForward v src dest n
    have hread : (copyForward v src dest n)[src + n]? = v[src + n]? := by
      rw [ih (by omega), if_neg (by omega)]
    rw [copyForward, getElem?_copyOne (by omega) (by omega), hread, ih (by omega)]
    by_cases hi : i = dest + n
    · subst hi
      rw [if_pos rfl, if_pos (by omega), Nat.add_sub_cancel_left]
    · rw [if_neg hi]
      by_cases hin : dest ≤ i ∧ i < dest + n
      · rw [if_pos hin, if_pos (by omega)]
      · rw [if_neg hin, if_neg (by omega)]

/-- Copied towards the back, from the last element on. -/
theorem getElem?_copyBackward {v : List α} {src dest n : Nat} (hle : src ≤ dest)
    (hdest : dest + n ≤ v.length) (i : Nat) :
    (copyBackward v src dest n)[i]? =
      if dest ≤ i ∧ i < dest + n then v[src + (i - dest)]? else v[i]? := by
  induction n generalizing v with
  | zero => rw [copyBackward, if_neg (by omega)]
  | succ n ih =>
    have hone := getElem?_copyOne (show src + n < v.length by omega) (show dest + n < v.length by omega)
    rw [copyBackward, ih (by rw [length_copyOne]; omega), hone, hone]
    by_cases hi : i = dest + n
    · subst hi
      rw [if_neg (by omega), if_pos rfl, if_pos (by omega), Nat.add_sub_cancel_left]
    · rw [if_neg hi]
      by_cases hin : dest ≤ i ∧ i < dest + n
      · rw [if_pos hin, if_neg (by omega), if_pos (by omega)]
      · rw [if_neg hin, if_neg (by omega)]

theorem getElem?_memmove {v : List α} {src dest n : Nat} (hsrc : src + n ≤ v.length)
    (hdest : dest + n ≤ v.length) (i : Nat) :
    (memmove v src dest n)[i]? =
      if dest ≤ i ∧ i < dest + n then v[src + (i - dest)]? else v[i]? := by
  unfold memmove
  by_cases hle : dest ≤ src
  · rw [if_pos hle]
    exact getElem?_copyForward hle hsrc i
  · rw [if_neg hle]
    exact getElem?_copyBackward (by omega) hdest i

/-- The target range holds what the source range held before the copy, whether
or not the two overlap. -/
theorem copyWithin_eq {v : List α} {start stop dest : Nat} (hle : start ≤ stop)
    (hstop : stop ≤ v.length) (hdest : dest + (stop - start) ≤ v.length) :
    copyWithin v start stop dest =
      some (v.take dest ++ (v.drop start).take (stop - start) ++ v.drop (dest + (stop - start))) := by
  rw [copyWithin, if_pos ⟨hle, hstop, hdest⟩]
  congr 1
  apply List.ext_getElem?
  intro i
  rw [getElem?_memmove (by omega) hdest]
  have hfront : (v.take dest).length = dest := by
    rw [List.length_take]
    omega
  have hmid : ((v.drop start).take (stop - start)).length = stop - start := by
    rw [List.length_take, List.length_drop]
    omega
  by_cases hlow : i < dest
  · rw [if_neg (by omega), List.append_assoc, List.getElem?_append_left (by omega),
      List.getElem?_take_of_lt hlow]
  · by_cases hhigh : i < dest + (stop - start)
    · rw [if_pos (by omega), List.append_assoc, List.getElem?_append_right (by omega),
        List.getElem?_append_left (by omega), hfront, List.getElem?_take_of_lt (by omega),
        List.getElem?_drop]
    · rw [if_neg (by omega), List.getElem?_append_right (by rw [List.length_append]; omega),
        List.length_append, hfront, hmid, List.getElem?_drop]
      congr 1
      omega

end CopyWithin

import Mathlib.Data.List.TakeWhile

namespace Sumi

variable {α : Type} {f : α → Bool} {xs ys : List α}

theorem split_concat {pre post : List α} {x y : α}
    (h : xs ++ [x] = pre ++ y :: post) :
    pre = xs ∧ y = x ∧ post = [] ∨ ∃ post', post = post' ++ [x] ∧ xs = pre ++ y :: post' := by
  rcases List.eq_nil_or_concat post with rfl | ⟨post', last, rfl⟩
  · obtain ⟨hp, hx⟩ := List.append_inj' h rfl
    exact .inl ⟨hp.symm, (List.singleton_inj.mp hx).symm, rfl⟩
  · have h' : xs ++ [x] = (pre ++ y :: post') ++ [last] := by simpa using h
    obtain ⟨hp, hx⟩ := List.append_inj' h' rfl
    cases hx
    exact .inr ⟨post', by simp, hp⟩

theorem takeWhile_parted (f : α → Bool) (cs ds : List α)
    (h : cs.dropWhile f = [] → ∀ d ∈ ds.head?, f d = false) :
    (cs ++ ds).takeWhile f = cs.takeWhile f ∧ (cs ++ ds).dropWhile f = cs.dropWhile f ++ ds := by
  have hl := congrArg List.length (List.takeWhile_append_dropWhile (p := f) (l := cs))
  rw [List.length_append] at hl
  rw [List.takeWhile_append, List.dropWhile_append]
  cases hd : cs.dropWhile f with
  | cons c rest =>
      rw [hd, List.length_cons] at hl
      simp [show ¬ (cs.takeWhile f).length = cs.length by omega]
  | nil =>
      have ht : cs.takeWhile f = cs := by
        simpa [hd] using List.takeWhile_append_dropWhile (p := f) (l := cs)
      cases ds with
      | nil => simp [ht]
      | cons d ds => simp [ht, h hd d rfl]

theorem takeWhile_run (hx : ∀ x ∈ xs, f x = true) (hy : ∀ y ∈ ys.head?, f y = false) :
    (xs ++ ys).takeWhile f = xs :=
  (takeWhile_parted f xs ys fun _ => hy).1.trans (List.takeWhile_eq_self_iff.mpr hx)

theorem head?_dropWhile (f : α → Bool) (xs : List α) :
    ∀ x ∈ (xs.dropWhile f).head?, f x = false := by
  intro x hx
  have h := List.head?_dropWhile_not f xs
  rwa [Option.mem_def.mp hx] at h

theorem run_of_length (h : ((xs ++ ys).takeWhile f).length = xs.length) :
    (∀ x ∈ xs, f x = true) ∧ ∀ y ∈ ys.head?, f y = false := by
  obtain ⟨ht, hd⟩ := List.append_inj List.takeWhile_append_dropWhile h
  constructor
  · rw [← ht]
    exact fun x hx => List.mem_takeWhile_imp hx
  · rw [← hd]
    exact head?_dropWhile f (xs ++ ys)

end Sumi

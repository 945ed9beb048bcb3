import Sumi.Text.Quoted

namespace Sumi.Text

theorem Hex.number?_isSome (cs : List Char) :
    (number? cs).isSome = true ↔ ∀ c ∈ cs, (value? c).isSome = true := by
  unfold number?
  generalize 0 = n
  induction cs generalizing n with
  | nil => simp
  | cons c cs ih =>
      rw [List.foldlM_cons, List.forall_mem_cons]
      cases hc : value? c with
      | none => simp
      | some d => simpa using ih (16 * n + d)

namespace Quoted

/-- Every backslash begins an escape: one of eight characters, or a code point of four digits. -/
inductive Sound : List Char → Prop
  | nil : Sound []
  | plain {c : Char} {cs : List Char} (h : c ≠ '\\') (rest : Sound cs) : Sound (c :: cs)
  | simple {c : Char} {cs : List Char} (h : (simpleEscape? c).isSome = true) (rest : Sound cs) :
      Sound ('\\' :: c :: cs)
  | codePoint {a b c d : Char} {cs : List Char}
      (h : ∀ x ∈ [a, b, c, d], (Hex.value? x).isSome = true) (rest : Sound cs) :
      Sound ('\\' :: 'u' :: a :: b :: c :: d :: cs)

variable {a b c d : Char} {cs ds : List Char} {place : Nat}

theorem sound_plain (hc : c ≠ '\\') : Sound (c :: cs) ↔ Sound cs := by
  refine ⟨fun h => ?_, .plain hc⟩
  cases h with
  | plain _ rest => exact rest
  | simple | codePoint => exact absurd rfl hc

theorem sound_simple (hc : c ≠ 'u') :
    Sound ('\\' :: c :: cs) ↔ (simpleEscape? c).isSome = true ∧ Sound cs := by
  refine ⟨fun h => ?_, fun ⟨h, rest⟩ => .simple h rest⟩
  cases h with
  | plain h => exact absurd rfl h
  | simple h rest => exact ⟨h, rest⟩
  | codePoint => exact absurd rfl hc

theorem sound_codePoint : Sound ('\\' :: 'u' :: a :: b :: c :: d :: cs) ↔
    (Hex.number? [a, b, c, d]).isSome = true ∧ Sound cs := by
  rw [Hex.number?_isSome]
  refine ⟨fun h => ?_, fun ⟨h, rest⟩ => .codePoint h rest⟩
  cases h with
  | plain h => exact absurd rfl h
  | simple h => cases h
  | codePoint h rest => exact ⟨h, rest⟩

theorem isOk_map {ε α β : Type} (f : α → β) (x : Except ε α) : (x.map f).isOk = x.isOk := by
  cases x <;> rfl

/-- A text can be read if its escapes are sound, and only then. -/
theorem decode_isOk (place : Nat) (cs : List Char) : (decode place cs).isOk = true ↔ Sound cs := by
  fun_induction decode place cs with
  | case1 => exact iff_of_true rfl .nil
  | case2 place a b c d cs hn =>
      refine iff_of_false nofun fun h => ?_
      rw [sound_codePoint, hn] at h
      cases h.1
  | case3 place a b c d n hn e f g h cs hm =>
      refine iff_of_false nofun fun hs => ?_
      have hs := (sound_codePoint.mp hs).2
      rw [sound_codePoint, hm] at hs
      cases hs.1
  | case4 place a b c d n hn e f g h cs m hm hhigh hlow ih =>
      rw [isOk_map, ih, sound_codePoint, sound_codePoint, hn, hm]
      simp
  | case5 place a b c d n hn e f g h cs m hm hhigh hlow ih
  | case6 place a b c d n hn e f g h cs hhigh ih =>
      rw [isOk_map, ih, sound_codePoint (a := a), hn]
      simp
  | case7 place a b c d n hn cs hne ih =>
      rw [isOk_map, ih, sound_codePoint, hn]
      simp
  | case8 place cs hne =>
      refine iff_of_false nofun fun h => ?_
      cases h with
      | plain h => exact h rfl
      | simple h => cases h
      | codePoint => exact hne _ _ _ _ _ rfl
  | case9 place c cs _ hc d hd ih =>
      rw [isOk_map, ih, sound_simple hc, hd]
      simp
  | case10 place c cs _ hc hd =>
      refine iff_of_false nofun fun h => ?_
      rw [sound_simple hc, hd] at h
      cases h.1
  | case11 place =>
      refine iff_of_false nofun fun h => ?_
      cases h with
      | plain h => exact h rfl
  | case12 place c cs _ _ hpair hlone ih =>
      have hc : c ≠ '\\' := by
        intro hc
        cases cs with
        | nil => exact hlone hc rfl
        | cons d ds => exact hpair d ds hc rfl
      rw [isOk_map, ih, sound_plain hc]

theorem decode_plain (hc : c ≠ '\\') :
    decode place (c :: cs) = (decode (place + 1) cs).map (c :: ·) := by
  rw [decode.eq_def]
  split <;> simp_all

theorem decode_simple (hc : simpleEscape? c = some d) :
    decode place ('\\' :: c :: cs) = (decode (place + 2) cs).map (d :: ·) := by
  have hu : c ≠ 'u' := by
    rintro rfl
    cases hc
  simp [decode, hu, hc]

theorem decode_escape (place : Nat) (c : Char) (cs : List Char) :
    ∃ k, decode place (escape c ++ cs) = (decode k cs).map (c :: ·) := by
  unfold escape
  split
  · exact ⟨_, decode_simple rfl⟩
  · exact ⟨_, decode_simple rfl⟩
  · exact ⟨_, decode_simple rfl⟩
  · exact ⟨_, decode_simple rfl⟩
  · exact ⟨_, decode_simple rfl⟩
  · next hb _ _ _ => exact ⟨_, decode_plain hb⟩

theorem decode_encode (place : Nat) (cs : List Char) : decode place (encode cs) = .ok cs := by
  induction cs generalizing place with
  | nil => rfl
  | cons c cs ih =>
      obtain ⟨k, hk⟩ := decode_escape place c (encode cs)
      rw [encode, List.flatMap_cons]
      rw [encode] at hk ih
      rw [hk, ih]
      rfl

end Quoted

end Sumi.Text

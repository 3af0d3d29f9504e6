import Mathlib.Algebra.Group.Nat.Defs
import Mathlib.Data.List.Basic
import UserDirectory.Uuid.Text

namespace UserDirectory.Uuid

theorem length_digits (w n : Nat) : (digits w n).length = w := by
  induction w generalizing n with
  | zero => rfl
  | succ w ih => simp [digits, ih]

theorem lt_of_mem_digits {w n d : Nat} (h : d ∈ digits w n) : d < 16 := by
  induction w generalizing n with
  | zero => simp [digits] at h
  | succ w ih =>
      rw [digits, List.mem_append, List.mem_singleton] at h
      rcases h with h | rfl
      · exact ih h
      · exact Nat.mod_lt n (by decide)

theorem ofDigits_append_singleton (ds : List Nat) (d : Nat) :
    ofDigits (ds ++ [d]) = ofDigits ds * 16 + d := by
  simp [ofDigits]

theorem ofDigits_digits (w n : Nat) : ofDigits (digits w n) = n % 16 ^ w := by
  induction w generalizing n with
  | zero =>
      rw [Nat.pow_zero, Nat.mod_one]
      rfl
  | succ w ih =>
      rw [digits, ofDigits_append_singleton, ih, Nat.pow_succ', Nat.mod_mul]
      omega

theorem hexValue_hexDigit : ∀ d < 16, hexValue (hexDigit d) = some d := by decide

theorem hexDigit_ne_m : ∀ d < 16, hexDigit d ≠ 'm' := by decide

theorem mapM_hexValue_map_hexDigit (ds : List Nat) (h : ∀ d ∈ ds, d < 16) :
    (ds.map hexDigit).mapM hexValue = some ds := by
  induction ds with
  | nil => rfl
  | cons d ds ih =>
      have hd := hexValue_hexDigit d (h d List.mem_cons_self)
      have hds := ih fun d hd => h d (List.mem_cons_of_mem _ hd)
      simp [hd, hds]

theorem take_drop_append_drop (cs : List Char) (m n : Nat) :
    (cs.drop m).take n ++ cs.drop (m + n) = cs.drop m := by
  rw [← List.drop_drop, List.take_append_drop]

theorem ofHyphenated?_hyphenate {cs : List Char} (h : cs.length = 32) :
    ofHyphenated? (hyphenate cs) = ofPlain? cs := by
  have hgone : ∀ m n k, n ≤ k → ((cs.drop m).take n).drop k = [] := by
    intro m n k hk
    rw [List.drop_take, Nat.sub_eq_zero_of_le hk, List.take_zero]
  have hfirst : ∀ k, 8 ≤ k → (cs.take 8).drop k = [] := fun k => hgone 0 8 k
  have hplain : (hyphenate cs).take 8 ++ ((hyphenate cs).drop 9).take 4 ++
      ((hyphenate cs).drop 14).take 4 ++ ((hyphenate cs).drop 19).take 4 ++
      (hyphenate cs).drop 24 = cs := by
    simp [hyphenate, List.drop_append, h, hgone, hfirst]
    rw [take_drop_append_drop cs 16 4, take_drop_append_drop cs 12 4,
      take_drop_append_drop cs 8 4, List.take_append_drop]
  have hlength : (hyphenate cs).length = 36 := by
    simp [hyphenate, h]
  have hhyphens : [8, 13, 18, 23].all ((hyphenate cs)[·]? == some '-') = true := by
    simp [hyphenate, List.getElem?_append, h]
  simp only [ofHyphenated?, hplain, hlength, hhyphens, and_self, if_true]

theorem length_chars (u : Uuid) : u.chars.length = 36 := by
  simp [chars, hyphenate, length_digits]

theorem ofChars?_chars (u : Uuid) : ofChars? u.chars = some u := by
  have hlt : ∀ d ∈ digits 32 u.toNat, d < 16 := fun d => lt_of_mem_digits
  have hnumber : ofDigits (digits 32 u.toNat) = u.toNat := by
    rw [ofDigits_digits]
    exact Nat.mod_eq_of_lt u.toNat_lt
  rw [ofChars?, length_chars]
  simp only [chars]
  rw [ofHyphenated?_hyphenate (by simp [length_digits])]
  simp [ofPlain?, length_digits, mapM_hexValue_map_hexDigit _ hlt, hnumber]

theorem ofString?_render (u : Uuid) : ofString? u.render = some u := by
  rw [ofString?, render, String.toList_ofList, ofChars?_chars]

theorem render_injective : Function.Injective render := by
  intro a b h
  have ha := ofString?_render a
  rw [h, ofString?_render] at ha
  exact (Option.some.inj ha).symm

theorem chars_eq_cons_cons (u : Uuid) : ∃ a b cs, u.chars = a :: b :: cs ∧ b ≠ 'm' := by
  have hlength := length_digits 32 u.toNat
  have hlt : ∀ d ∈ digits 32 u.toNat, d < 16 := fun d => lt_of_mem_digits
  rcases hd : digits 32 u.toNat with _ | ⟨a, _ | ⟨b, ds⟩⟩
  · simp [hd] at hlength
  · simp [hd] at hlength
  · have hchars : ∃ cs, u.chars = hexDigit a :: hexDigit b :: cs := by
      rw [chars, hd]
      exact ⟨_, rfl⟩
    obtain ⟨cs, hcs⟩ := hchars
    exact ⟨_, _, cs, hcs, hexDigit_ne_m b (hlt b (by simp [hd]))⟩

end UserDirectory.Uuid

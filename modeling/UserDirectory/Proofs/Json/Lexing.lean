import UserDirectory.Proofs.Json.Grammar
import UserDirectory.Proofs.Json.Literals
import UserDirectory.Proofs.Json.Written

namespace UserDirectory.Json

open UserDirectory.Text

def Token.ofChars (cs : List Char) : List Token := scanAll (cs.map some)

namespace Grammar

open Token

/-- Whether the characters that follow a value cannot be taken for a part of it. -/
def Ends (rest : List Char) : Prop :=
  ∀ c ∈ rest.head?, c ∈ [' ', '\t', '\n', '\r', ',', ']', '\x7d']

variable {b b' l w w' rest cs : List Char} {c : Char} {ps : List Piece} {p : Piece}

theorem tokens_bytes (s : String) : tokens (bytes s) = ofChars s.toList := by
  rw [tokens, symbols_bytes, ofChars]

theorem ofChars_nil : ofChars [] = [] := by
  rw [ofChars, List.map_nil, scanAll]

theorem ofChars_cons (hc : Token.isBlank c = false) {t : Token} (hscan : ∀ s, scan c s = (t, s))
    (rest : List Char) : ofChars (c :: rest) = t :: ofChars rest := by
  rw [ofChars, List.map_cons, scanAll_cons hc, hscan, ofChars]

theorem ofChars_blanks (h : Blanks b) (rest : List Char) : ofChars (b ++ rest) = ofChars rest := by
  induction b with
  | nil => rfl
  | cons c b ih =>
      have hc : Token.isBlank c = true := by
        have hmem := h c (List.mem_cons_self ..)
        simp only [List.mem_cons, List.not_mem_nil, or_false] at hmem
        rcases hmem with rfl | rfl | rfl | rfl <;> rfl
      rw [← ih fun c' hc' => h c' (List.mem_cons_of_mem _ hc'), ofChars, List.cons_append,
        List.map_cons, scanAll]
      simp only [hc, if_true]
      rfl

/-! Punctuation. -/

theorem ofChars_openList (rest : List Char) : ofChars ('[' :: rest) = .openList :: ofChars rest :=
  ofChars_cons rfl (fun _ => rfl) rest

theorem ofChars_closeList (rest : List Char) : ofChars (']' :: rest) = .closeList :: ofChars rest :=
  ofChars_cons rfl (fun _ => rfl) rest

theorem ofChars_openObject (rest : List Char) :
    ofChars ('\x7b' :: rest) = .openObject :: ofChars rest :=
  ofChars_cons rfl (fun _ => rfl) rest

theorem ofChars_closeObject (rest : List Char) :
    ofChars ('\x7d' :: rest) = .closeObject :: ofChars rest :=
  ofChars_cons rfl (fun _ => rfl) rest

theorem ofChars_colon (rest : List Char) : ofChars (':' :: rest) = .colon :: ofChars rest :=
  ofChars_cons rfl (fun _ => rfl) rest

theorem ofChars_comma (rest : List Char) : ofChars (',' :: rest) = .comma :: ofChars rest :=
  ofChars_cons rfl (fun _ => rfl) rest

/-! Literals. -/

theorem hexDigit?_of_hexDigit {n : Nat} (h : HexDigit c n) :
    n < 16 ∧ hexDigit? (some c) = some n := by
  have hdigit : ∀ k : Fin 16, hexDigit? "0123456789abcdef".toList[k.val]? = some k.val ∧
      hexDigit? "0123456789ABCDEF".toList[k.val]? = some k.val := by
    decide
  have hn : n < 16 := by
    rcases h with h | h <;> exact (List.getElem?_eq_some_iff.mp h).1
  refine ⟨hn, ?_⟩
  rcases h with h | h
  · rw [← (hdigit ⟨n, hn⟩).1, h]
  · rw [← (hdigit ⟨n, hn⟩).2, h]

theorem scanPieces_part (h : Part p w) (s : List Symbol) :
    scanPieces (w.map some ++ s) = (p :: (scanPieces s).1, (scanPieces s).2) := by
  cases h with
  | @raw c hc hquote hbackslash =>
      have hcontrol : ¬ c < ' ' := Char.not_lt.mpr hc
      simp [scanPieces, hquote, hcontrol]
  | short h =>
      simp only [shortEscapes, List.mem_cons, List.not_mem_nil, or_false, Prod.mk.injEq] at h
      rcases h with ⟨rfl, rfl⟩ | ⟨rfl, rfl⟩ | ⟨rfl, rfl⟩ | ⟨rfl, rfl⟩ | ⟨rfl, rfl⟩ | ⟨rfl, rfl⟩ |
        ⟨rfl, rfl⟩ | ⟨rfl, rfl⟩ <;> rfl
  | @unit a i b j c m d n ha hb hc hd =>
      have hunit : unitOf? (some a) (some b) (some c) (some d) =
          some (((i * 16 + j) * 16 + m) * 16 + n) := by
        simp only [unitOf?, hexDigit?_of_hexDigit ha, hexDigit?_of_hexDigit hb,
          hexDigit?_of_hexDigit hc, hexDigit?_of_hexDigit hd, Option.bind_eq_bind,
          Option.bind_some, Option.pure_def]
        congr 1
        omega
      simp [scanPieces, hunit]

theorem scanPieces_parts (h : Parts ps w) (s : List Symbol) :
    scanPieces (w.map some ++ some '\"' :: s) = (ps, .quote, s) := by
  induction h with
  | nil => simp [scanPieces]
  | cons h _ ih => rw [List.map_append, List.append_assoc, scanPieces_part h, ih]

theorem ofChars_literal (h : Literal ps w) (rest : List Char) :
    ofChars (w ++ rest) = .text ps .quote :: ofChars rest := by
  obtain ⟨hparts⟩ := h
  have hpieces := scanPieces_parts hparts (rest.map some)
  rw [ofChars, List.cons_append, List.map_cons, scanAll_cons rfl, List.map_append, List.map_append,
    List.append_assoc]
  simp only [scan, List.map_cons, List.map_nil, List.cons_append, List.nil_append, hpieces]
  rfl

/-! What literals spell. -/

theorem Parts.unit_lt (h : Parts ps w) : ∀ u, .unit u ∈ ps → u < 0x10000 := by
  induction h with
  | nil => simp
  | cons h _ ih =>
      intro u hu
      rcases List.mem_cons.mp hu with rfl | hu
      · cases h with
        | unit ha hb hc hd =>
            have hi := (hexDigit?_of_hexDigit ha).1
            have hj := (hexDigit?_of_hexDigit hb).1
            have hm := (hexDigit?_of_hexDigit hc).1
            have hn := (hexDigit?_of_hexDigit hd).1
            omega
      · exact ih u hu

theorem toNat_valid (c : Char) :
    c.toNat < 0xD800 ∨ (0xDFFF < c.toNat ∧ c.toNat < 0x110000) :=
  c.valid

theorem toNat_ofNat_eq {u : Nat} (hu : u < 0x110000) (hhigh : ¬ (0xD800 ≤ u ∧ u ≤ 0xDFFF)) :
    (Char.ofNat u).toNat = u := by
  have hvalid : u.isValidChar := by
    rw [Nat.isValidChar]
    omega
  rw [Char.ofNat, dif_pos hvalid]
  rfl

theorem pairedUnit_eq (u v : Nat) :
    pairedUnit u v = 0x10000 + (u - 0xD800) * 0x400 + (v - 0xDC00) :=
  rfl

theorem not_half_toNat (c : Char) : isHighHalf c.toNat = false ∧ isLowHalf c.toNat = false := by
  have hvalid := toNat_valid c
  simp only [isHighHalf, isLowHalf, Bool.and_eq_false_iff, decide_eq_false_iff_not]
  omega

theorem isHighHalf_add {k : Nat} (hk : k < 0x400) :
    isHighHalf (0xD800 + k) = true ∧ isLowHalf (0xD800 + k) = false := by
  simp only [isHighHalf, isLowHalf, Bool.and_eq_true, decide_eq_true_eq, Bool.and_eq_false_iff,
    decide_eq_false_iff_not]
  omega

theorem isLowHalf_add {k : Nat} (hk : k < 0x400) : isLowHalf (0xDC00 + k) = true := by
  simp only [isLowHalf, Bool.and_eq_true, decide_eq_true_eq]
  omega

theorem unitChars_of_spells (h : Spells ps cs) : unitChars ps .quote = .ok cs := by
  induction h with
  | nil => rfl
  | char c _ ih =>
      rw [unitChars, ih]
      rfl
  | @unit ps cs c hc _ ih =>
      obtain ⟨hhigh, hlow⟩ := not_half_toNat c
      rw [unitChars.eq_def]
      simp only [hlow, hhigh, Bool.false_eq_true, if_false, ih, Char.ofNat_toNat]
      rfl
  | @pair ps cs c hc _ ih =>
      have hvalid := toNat_valid c
      have hle : (c.toNat - 0x10000) / 0x400 < 0x400 := by omega
      obtain ⟨hhigh, hlow⟩ := isHighHalf_add hle
      have hpartner := isLowHalf_add (Nat.mod_lt (c.toNat - 0x10000) (by decide : 0 < 0x400))
      have hpaired : pairedUnit (0xD800 + (c.toNat - 0x10000) / 0x400)
          (0xDC00 + (c.toNat - 0x10000) % 0x400) = c.toNat := by
        rw [pairedUnit_eq, Nat.add_sub_cancel_left, Nat.add_sub_cancel_left]
        omega
      rw [unitChars.eq_def]
      simp only [hlow, hhigh, hpartner, hpaired, Bool.false_eq_true, if_false, if_true, ih,
        Char.ofNat_toNat]
      rfl

theorem spells_of_unitChars {e : Closing} (hunits : ∀ u, .unit u ∈ ps → u < 0x10000)
    (h : unitChars ps e = .ok cs) : Spells ps cs := by
  fun_induction unitChars ps e generalizing cs with
  | case1 =>
      cases h
      exact .nil
  | case3 c ps e ih =>
      obtain ⟨cs, hcs, rfl⟩ := ok_of_map h
      exact .char c (ih (fun u hu => hunits u (List.mem_cons_of_mem _ hu)) hcs)
  | case4 ps e ih =>
      cases hcs : unitChars ps e <;> rw [hcs] at h <;> cases h
  | case6 u e hlow hhigh v ps hpair ih =>
      obtain ⟨cs, hcs, rfl⟩ := ok_of_map h
      have hrest := ih (fun u hu => hunits u (by simp [hu])) hcs
      simp only [isHighHalf, isLowHalf, Bool.and_eq_true, decide_eq_true_eq] at hhigh hpair
      have hc : (Char.ofNat (pairedUnit u v)).toNat =
          0x10000 + (u - 0xD800) * 0x400 + (v - 0xDC00) := by
        rw [pairedUnit_eq, toNat_ofNat_eq (by omega) (by omega)]
      have hu : u = 0xD800 + ((Char.ofNat (pairedUnit u v)).toNat - 0x10000) / 0x400 := by
        omega
      have hv : v = 0xDC00 + ((Char.ofNat (pairedUnit u v)).toNat - 0x10000) % 0x400 := by
        omega
      have hspells := Spells.pair (by omega : 0x10000 ≤ (Char.ofNat (pairedUnit u v)).toNat) hrest
      rw [← hu, ← hv] at hspells
      exact hspells
  | case10 u ps e hlow hhigh ih =>
      obtain ⟨cs, hcs, rfl⟩ := ok_of_map h
      have hrest := ih (fun u hu => hunits u (List.mem_cons_of_mem _ hu)) hcs
      have hlt := hunits u (List.mem_cons_self ..)
      simp only [isHighHalf, isLowHalf, Bool.not_eq_true, Bool.and_eq_false_iff,
        decide_eq_false_iff_not] at hlow hhigh
      have hu : (Char.ofNat u).toNat = u := toNat_ofNat_eq (by omega) (by omega)
      have hspells := Spells.unit (by omega : (Char.ofNat u).toNat < 0x10000) hrest
      rw [hu] at hspells
      exact hspells
  | _ => cases h

/-! Numbers. -/

theorem noDigit_of_ends (h : Ends rest) : ∀ c ∈ rest.head?, ¬ ('0' ≤ c ∧ c ≤ '9') := by
  intro c hc
  have hmem := h c hc
  simp only [List.mem_cons, List.not_mem_nil, or_false] at hmem
  rcases hmem with rfl | rfl | rfl | rfl | rfl | rfl | rfl <;> decide

theorem Ends.ne_cons (h : Ends rest) (hc : c ∉ [' ', '\t', '\n', '\r', ',', ']', '\x7d'])
    (s : List Symbol) : rest.map some ≠ some c :: s := by
  cases rest with
  | nil => exact fun he => by cases he
  | cons c' rest =>
      intro he
      cases he
      exact hc (h c rfl)

theorem spanDigits_digits {digits : List Char} (h : ∀ c ∈ digits, '0' ≤ c ∧ c ≤ '9')
    (hrest : ∀ c ∈ rest.head?, ¬ ('0' ≤ c ∧ c ≤ '9')) :
    spanDigits ((digits ++ rest).map some) = (digits.map (·.toNat - 48), rest.map some) := by
  induction digits with
  | nil =>
      cases rest with
      | nil => rfl
      | cons c rest => simp [spanDigits, digit?, hrest c rfl]
  | cons c digits ih =>
      have hc := h c (List.mem_cons_self ..)
      have hdigits := ih fun c' hc' => h c' (List.mem_cons_of_mem _ hc')
      rw [List.cons_append, List.map_cons, spanDigits, digit?, if_pos hc, hdigits, List.map_cons]

theorem scanExponentDigits_digits {digits : List Char} (h : Digits digits) (negative minus : Bool)
    (whole fraction : List Nat) :
    ∃ n, ∀ rest, Ends rest →
      scanExponentDigits negative minus whole fraction ((digits ++ rest).map some) =
        (.number n, rest.map some) := by
  obtain ⟨hne, hdigits⟩ := h
  let e : Int := NumberText.ofDigits (digits.map (·.toNat - 48))
  refine ⟨⟨negative, whole, fraction, some (if minus then -e else e)⟩, fun rest hrest => ?_⟩
  rw [scanExponentDigits, spanDigits_digits hdigits (noDigit_of_ends hrest)]
  cases digits with
  | nil => exact absurd rfl hne
  | cons c digits => rfl

theorem scanExponent_sign {sign digits : List Char} (hsign : sign ∈ [[], ['+'], ['-']])
    (h : Digits digits) (negative : Bool) (whole fraction : List Nat) :
    ∃ n, ∀ rest, Ends rest →
      scanExponent negative whole fraction ((sign ++ digits ++ rest).map some) =
        (.number n, rest.map some) := by
  simp only [List.mem_cons, List.not_mem_nil, or_false] at hsign
  rcases hsign with rfl | rfl | rfl
  · obtain ⟨n, hn⟩ := scanExponentDigits_digits h negative false whole fraction
    refine ⟨n, fun rest hrest => ?_⟩
    rw [← hn rest hrest, List.nil_append]
    obtain ⟨hne, hdigits⟩ := h
    cases digits with
    | nil => exact absurd rfl hne
    | cons c digits =>
        have hc := hdigits c (List.mem_cons_self ..)
        rw [List.cons_append, List.map_cons, scanExponent.eq_3]
        · rintro r he
          cases he
          exact absurd hc (by decide)
        · rintro r he
          cases he
          exact absurd hc (by decide)
  · exact scanExponentDigits_digits h negative false whole fraction
  · exact scanExponentDigits_digits h negative true whole fraction

theorem scanTail_exponent {exponent : List Char} (h : Exponent exponent) (negative : Bool)
    (whole fraction : List Nat) :
    ∃ n, ∀ rest, Ends rest →
      scanTail negative whole fraction ((exponent ++ rest).map some) =
        (.number n, rest.map some) := by
  cases h with
  | none =>
      refine ⟨⟨negative, whole, fraction, none⟩, fun rest hrest => ?_⟩
      rw [List.nil_append, scanTail.eq_3 _ _ _ _ (hrest.ne_cons (by decide))
        (hrest.ne_cons (by decide))]
  | @some mark sign digits hmark hsign h =>
      obtain ⟨n, hn⟩ := scanExponent_sign hsign h negative whole fraction
      refine ⟨n, fun rest hrest => ?_⟩
      rw [← hn rest hrest]
      simp only [List.mem_cons, List.not_mem_nil, or_false] at hmark
      rcases hmark with rfl | rfl <;> rfl

theorem noDigit_exponent {exponent : List Char} (h : Exponent exponent) (hrest : Ends rest) :
    ∀ c ∈ (exponent ++ rest).head?, ¬ ('0' ≤ c ∧ c ≤ '9') := by
  cases h with
  | none => exact noDigit_of_ends hrest
  | some hmark =>
      simp only [List.mem_cons, List.not_mem_nil, or_false] at hmark
      rcases hmark with rfl | rfl <;> simp

theorem scanFraction_fraction {fraction exponent : List Char} (hf : Fraction fraction)
    (he : Exponent exponent) (negative : Bool) (whole : List Nat) :
    ∃ n, ∀ rest, Ends rest →
      scanFraction negative whole ((fraction ++ (exponent ++ rest)).map some) =
        (.number n, rest.map some) := by
  cases hf with
  | none =>
      obtain ⟨n, hn⟩ := scanTail_exponent he negative whole []
      refine ⟨n, fun rest hrest => ?_⟩
      rw [← hn rest hrest, List.nil_append, scanFraction.eq_2 _ _ _ ?_]
      cases he with
      | none => exact hrest.ne_cons (by decide)
      | some hmark =>
          simp only [List.mem_cons, List.not_mem_nil, or_false] at hmark
          rcases hmark with rfl | rfl <;> exact fun s he => by cases he
  | @some digits h =>
      obtain ⟨hne, hdigits⟩ := h
      obtain ⟨n, hn⟩ := scanTail_exponent he negative whole (digits.map (·.toNat - 48))
      refine ⟨n, fun rest hrest => ?_⟩
      rw [← hn rest hrest, List.cons_append, List.map_cons, scanFraction,
        spanDigits_digits hdigits (noDigit_exponent he hrest)]
      cases digits with
      | nil => exact absurd rfl hne
      | cons c digits => rfl

theorem scanNumber_eq {digits : List Nat} {s rest : List Symbol}
    (hspan : spanDigits s = (digits, rest)) (hne : digits ≠ [])
    (hzero : ∀ d ds, digits ≠ 0 :: d :: ds) (negative : Bool) :
    scanNumber negative s = scanFraction negative digits rest := by
  rw [scanNumber, hspan]
  split
  · exact absurd (congrArg Prod.fst ‹_›) hne
  · exact absurd (congrArg Prod.fst ‹_›) (hzero _ _)
  · cases ‹(digits, rest) = _›
    rfl

theorem scanNumber_digits {whole fraction exponent : List Char} (hwhole : Digits whole)
    (hzero : whole.head? = some '0' → whole = ['0']) (hf : Fraction fraction)
    (he : Exponent exponent) (negative : Bool) :
    ∃ n, ∀ rest, Ends rest →
      scanNumber negative ((whole ++ (fraction ++ (exponent ++ rest))).map some) =
        (.number n, rest.map some) := by
  obtain ⟨hne, hdigits⟩ := hwhole
  obtain ⟨n, hn⟩ := scanFraction_fraction hf he negative (whole.map (·.toNat - 48))
  refine ⟨n, fun rest hrest => ?_⟩
  have hnext : ∀ c ∈ (fraction ++ (exponent ++ rest)).head?, ¬ ('0' ≤ c ∧ c ≤ '9') := by
    cases hf with
    | none =>
        rw [List.nil_append]
        exact noDigit_exponent he hrest
    | some => simp
  rw [← hn rest hrest]
  refine scanNumber_eq (spanDigits_digits hdigits hnext) (by simpa using hne) ?_ negative
  intro d ds hds
  obtain ⟨c, cs, rfl, hc, hcs⟩ := List.map_eq_cons_iff.mp hds
  have hle : '0' ≤ c := (hdigits c (List.mem_cons_self ..)).1
  have hc0 : c = '0' := by
    refine Char.toNat_inj.mp ?_
    have h48 : 48 ≤ c.toNat := hle
    change c.toNat = 48
    omega
  cases hzero (by rw [hc0]; rfl)
  cases hcs

theorem scan_digit (hc : '0' ≤ c ∧ c ≤ '9') (s : List Symbol) :
    scan c s = scanNumber false (some c :: s) := by
  rw [scan.eq_def]
  split
  all_goals try exact absurd hc (by decide)
  rw [if_pos hc]

theorem isBlank_digit (hc : '0' ≤ c ∧ c ≤ '9') : Token.isBlank c = false := by
  simp only [Token.isBlank, Bool.or_eq_false_iff, decide_eq_false_iff_not]
  refine ⟨⟨⟨?_, ?_⟩, ?_⟩, ?_⟩ <;> (rintro rfl; revert hc; decide)

theorem ofChars_number (h : NumberWord w) :
    ∃ n, ∀ rest, Ends rest → ofChars (w ++ rest) = .number n :: ofChars rest := by
  obtain @⟨sign, whole, fraction, exponent, hsign, hwhole, hzero, hf, he⟩ := h
  simp only [List.mem_cons, List.not_mem_nil, or_false] at hsign
  rcases hsign with rfl | rfl
  · obtain ⟨n, hn⟩ := scanNumber_digits hwhole hzero hf he false
    refine ⟨n, fun rest hrest => ?_⟩
    have hnumber := hn rest hrest
    obtain ⟨hne, hdigits⟩ := hwhole
    cases whole with
    | nil => exact absurd rfl hne
    | cons c whole =>
        have hc := hdigits c (List.mem_cons_self ..)
        simp only [List.nil_append, List.append_assoc, List.cons_append, List.map_cons]
          at hnumber ⊢
        rw [ofChars, List.map_cons, scanAll_cons (isBlank_digit hc), scan_digit hc, hnumber]
        rfl
  · obtain ⟨n, hn⟩ := scanNumber_digits hwhole hzero hf he true
    refine ⟨n, fun rest hrest => ?_⟩
    have hminus (s : List Symbol) : scan '-' s = scanNumber true s := rfl
    simp only [List.append_assoc, List.cons_append, List.nil_append]
    rw [ofChars, List.map_cons, scanAll_cons rfl, hminus, hn rest hrest]
    rfl

end Grammar

end UserDirectory.Json

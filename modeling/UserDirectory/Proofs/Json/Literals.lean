import UserDirectory.Json.Record
import UserDirectory.Proofs.Json.Trees

namespace UserDirectory.Json

variable {α β δ : Type}

def Value.IsComposite : Value → Prop
  | .list _ => True
  | .object _ => True
  | _ => False

section Trees

variable {room : Nat} {stack stack' : List Frame} {g g' : Growth} {t : Token}
  {ts rest : List Token} {v : Value}

/-- Whether a bracket has been opened around what is being read. -/
def Bracketed (stack : List Frame) (g : Growth) : Prop :=
  stack ≠ [] ∨ ∃ v, g = .grown v ∧ v.IsComposite

theorem Bracketed.of_growToken (hopen : Bracketed stack g)
    (h : growToken room stack g t = .ok (stack', g')) : Bracketed stack' g' := by
  have hleaf (frame : Frame) (stack : List Frame)
      (h : growToken.growLeaf room (frame :: stack) t = .ok (stack', g')) :
      Bracketed stack' g' := by
    rcases growLeaf_cases h with ⟨v, -, rfl, rfl⟩ | ⟨rfl, -, rfl, rfl⟩ | ⟨rfl, -, rfl, rfl⟩ <;>
      exact Or.inl (List.cons_ne_nil _ _)
  rcases stack with _ | ⟨frame, stack⟩
  · obtain ⟨v, rfl, -⟩ := hopen.resolve_left (by simp)
    cases h
  · cases frame <;> cases g <;> cases t <;>
      first
      | (cases h <;> simp [Bracketed, Value.IsComposite])
      | exact hleaf _ _ h
      | (obtain ⟨k, -, hst⟩ := ok_of_map h
         cases hst
         exact Or.inl (List.cons_ne_nil _ _))

theorem Bracketed.isComposite (hopen : Bracketed stack g)
    (h : growFrom room stack g ts = .ok (v, rest)) : v.IsComposite := by
  fun_induction growFrom room stack g ts with
  | case1 v ts =>
      cases h
      obtain ⟨v, hv, hcomposite⟩ := hopen.resolve_left (by simp)
      cases hv
      exact hcomposite
  | case2 => cases h
  | case3 stack g t ts hend stack' g' hstep ih => exact ih (hopen.of_growToken hstep) h
  | case4 => cases h

theorem isLiteral_of_readTree (h : readTree room ts = .ok (v, rest)) (hv : ¬ v.IsComposite) :
    ∃ t, ts = t :: rest ∧ t.IsLiteral v := by
  cases ts with
  | nil => cases h
  | cons t ts =>
      rw [readTree, growFrom.eq_3 _ _ _ _ _ (fun _ _ h => by cases h), growToken_value] at h
      split at h
      · rename_i stack g hleaf
        rcases growLeaf_cases hleaf with ⟨w, hw, rfl, rfl⟩ | ⟨-, -, rfl, rfl⟩ | ⟨-, -, rfl, rfl⟩
        · rw [growFrom] at h
          cases h
          exact ⟨t, rfl, hw⟩
        · exact absurd (Bracketed.isComposite (Or.inl (List.cons_ne_nil _ _)) h) hv
        · exact absurd (Bracketed.isComposite (Or.inl (List.cons_ne_nil _ _)) h) hv
      · cases h

theorem readTree_literal (h : t.IsLiteral v) (ts : List Token) :
    readTree room (t :: ts) = .ok (v, ts) := by
  have hstep : growToken room [] .value t = .ok ([], .grown v) := by
    rw [growToken_value]
    exact h.grow room []
  rw [readTree, growFrom.eq_3 _ _ _ _ _ (fun _ _ h => by cases h), hstep]
  simp only [growFrom]

theorem Token.IsLiteral.eq_text {s : String} (h : t.IsLiteral (.text s)) :
    ∃ ps e, t = .text ps e ∧ textOf ps e = .ok s := by
  have hgrow := h.grow 0 []
  rcases t with _ | _ | _ | _ | _ | _ | _ | _ | n | _ | ⟨ps, e⟩ | _ <;>
    simp only [growToken.growLeaf] at hgrow
  all_goals try cases hgrow
  · split at hgrow <;> cases hgrow
  · obtain ⟨s', hs, he⟩ := ok_of_map hgrow
    cases he
    exact ⟨ps, e, rfl, hs⟩

theorem Token.IsLiteral.eq_bool {b : Bool} (h : t.IsLiteral (.bool b)) : t = .bool b := by
  have hgrow := h.grow 0 []
  rcases t with _ | _ | _ | _ | _ | _ | _ | _ | n | _ | ⟨ps, e⟩ | _ <;>
    simp only [growToken.growLeaf] at hgrow
  all_goals try cases hgrow
  · rfl
  · split at hgrow <;> cases hgrow
  · obtain ⟨s', hs, he⟩ := ok_of_map hgrow
    cases he

end Trees

namespace Decoder

/-- Whether what is decoded is always one token, with the same outcome if it is read and if it is
taken from a tree. -/
structure OfLiterals (d : Decoder α) : Prop where
  token : ∀ {ts a rest}, d.read ts = .ok (a, rest) →
    ∃ t v, ts = t :: rest ∧ t.IsLiteral v ∧ d.take v = .ok a
  read : ∀ {t v a}, t.IsLiteral v → d.take v = .ok a →
    ∀ rest, d.read (t :: rest) = .ok (a, rest)
  simple : ∀ {v a}, d.take v = .ok a → ¬ v.IsComposite

/-- Decoders of texts that differ in what they say that they expect. -/
def textual (expected : String) : Decoder String where
  read
    | .text ps e :: ts => (textOf ps e).map fun s => (s, ts)
    | ts => .error (unexpected expected ts)
  take
    | .text s => .ok s
    | v => .error (.wrongType v.found expected)

theorem ofLiterals_textual (expected : String) : (textual expected).OfLiterals where
  token h := by
    simp only [textual] at h
    split at h
    · obtain ⟨s, hs, hrest⟩ := ok_of_map h
      cases hrest
      exact ⟨_, _, rfl, Token.isLiteral_text hs, rfl⟩
    · cases h
  read ht htake rest := by
    simp only [textual] at htake
    split at htake
    · cases htake
      obtain ⟨ps, e, rfl, hs⟩ := ht.eq_text
      simp only [textual, hs, Except.map]
    · cases htake
  simple htake hv := by
    simp only [textual] at htake
    split at htake
    · exact hv
    · cases htake

theorem ofLiterals_text : text.OfLiterals := ofLiterals_textual "a string"

theorem ofLiterals_bool : bool.OfLiterals where
  token h := by
    simp only [bool] at h
    split at h
    · cases h
      exact ⟨_, _, rfl, Token.isLiteral_bool _, rfl⟩
    · cases h
  read ht htake rest := by
    simp only [bool] at htake
    split at htake
    · cases htake
      rw [ht.eq_bool]
      rfl
    · cases htake
  simple htake hv := by
    simp only [bool] at htake
    split at htake
    · exact hv
    · cases htake

theorem take_refine {d : Decoder α} {f : α → Except Mismatch β} {v : Value} {b : β}
    (h : (d.refine f).take v = .ok b) : ∃ a, d.take v = .ok a ∧ f a = .ok b := by
  simp only [refine] at h
  cases ha : d.take v with
  | error m =>
      rw [ha] at h
      cases h
  | ok a =>
      rw [ha] at h
      exact ⟨a, rfl, h⟩

theorem OfLiterals.refine {d : Decoder α} (hd : d.OfLiterals) (f : α → Except Mismatch β) :
    (d.refine f).OfLiterals where
  token h := by
    simp only [Decoder.refine] at h
    split at h
    · rename_i a rest' hread
      obtain ⟨t, v, rfl, ht, htake⟩ := hd.token hread
      cases hb : f a with
      | error m =>
          rw [hb] at h
          cases h
      | ok b =>
          rw [hb] at h
          cases h
          refine ⟨t, v, rfl, ht, ?_⟩
          simp only [Decoder.refine, htake]
          exact hb
    · cases h
  read ht htake rest := by
    obtain ⟨a, ha, hb⟩ := take_refine htake
    simp only [Decoder.refine, hd.read ht ha, hb, lift, Except.map]
  simple htake := by
    obtain ⟨a, ha, -⟩ := take_refine htake
    exact hd.simple ha

theorem ofLiterals_uuid : uuid.OfLiterals := (ofLiterals_textual uuidExpected).refine uuidOf

theorem OfLiterals.of {d : Decoder β} (hd : d.OfLiterals) {key : String} {absence : Absence}
    {get : δ → Option β} {set : δ → β → δ} :
    (RecordField.of key d absence get set).value.OfLiterals :=
  hd.refine _

end Decoder

end UserDirectory.Json

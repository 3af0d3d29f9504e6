import UserDirectory.Json.Decoder

namespace UserDirectory.Json

variable {α β : Type}

theorem ok_of_map {ε : Type} {x : Except ε α} {f : α → β} {b : β} (h : x.map f = .ok b) :
    ∃ a, x = .ok a ∧ f a = b := by
  cases x with
  | error e => cases h
  | ok a => exact ⟨a, rfl, Except.ok.inj h⟩

theorem quote_of_unitChars {ps : List Piece} {e : Closing} {cs : List Char}
    (h : unitChars ps e = .ok cs) : e = .quote := by
  fun_induction unitChars ps e generalizing cs with
  | case1 => rfl
  | case3 c ps e ih =>
      obtain ⟨cs, hcs, -⟩ := ok_of_map h
      exact ih hcs
  | case4 ps e ih =>
      cases hcs : unitChars ps e with
      | error f =>
          rw [hcs] at h
          cases h
      | ok cs => exact ih hcs
  | case6 u e hlow hhigh v ps hpair ih =>
      obtain ⟨cs, hcs, -⟩ := ok_of_map h
      exact ih hcs
  | case10 u ps e hlow hhigh ih =>
      obtain ⟨cs, hcs, -⟩ := ok_of_map h
      exact ih hcs
  | _ => cases h

theorem quote_of_textOf {ps : List Piece} {e : Closing} {s : String} (h : textOf ps e = .ok s) :
    e = .quote := by
  obtain ⟨cs, hcs, -⟩ := ok_of_map h
  exact quote_of_unitChars hcs

def Frame.bracket : Frame → Bracket
  | .list _ => .list
  | .object _ _ => .object

def Growth.awaited : Growth → Awaited
  | .value => .value
  | .firstItem => .firstItem
  | .firstKey => .firstKey
  | .key => .key
  | .colon => .colon
  | .grown _ => .separator

section Trees

variable {room : Nat} {stack stack' base : List Frame} {g g' : Growth} {t : Token}
  {ts rest : List Token} {v : Value}

/-- Whether a token is a value by itself. -/
structure Token.IsLiteral (t : Token) (v : Value) : Prop where
  grow : ∀ room stack, growToken.growLeaf room stack t = .ok (stack, .grown v)
  skip : ∀ stack, skipToken.skipLeaf stack t = .ok (stack, .separator)

namespace Token

theorem isLiteral_null : Token.null.IsLiteral .null := ⟨fun _ _ => rfl, fun _ => rfl⟩

theorem isLiteral_bool (b : Bool) : (Token.bool b).IsLiteral (.bool b) :=
  ⟨fun _ _ => rfl, fun _ => rfl⟩

theorem isLiteral_number {d : NumberText} {n : Number} (h : d.value? = some n) :
    (Token.number d).IsLiteral (.number n) :=
  ⟨fun _ _ => by rw [growToken.growLeaf, h], fun _ => rfl⟩

theorem isLiteral_text {ps : List Piece} {e : Closing} {s : String} (h : textOf ps e = .ok s) :
    (Token.text ps e).IsLiteral (.text s) := by
  cases quote_of_textOf h
  refine ⟨fun _ _ => ?_, fun _ => rfl⟩
  rw [growToken.growLeaf, h]
  rfl

end Token

theorem growLeaf_cases (h : growToken.growLeaf room stack t = .ok (stack', g')) :
    (∃ v, t.IsLiteral v ∧ stack' = stack ∧ g' = .grown v) ∨
      (t = .openList ∧ stack.length < room ∧ stack' = .list [] :: stack ∧ g' = .firstItem) ∨
      (t = .openObject ∧ stack.length < room ∧ stack' = .object [] "" :: stack ∧
        g' = .firstKey) := by
  cases t with
  | null =>
      cases h
      exact Or.inl ⟨_, Token.isLiteral_null, rfl, rfl⟩
  | bool b =>
      cases h
      exact Or.inl ⟨_, Token.isLiteral_bool b, rfl, rfl⟩
  | number n =>
      simp only [growToken.growLeaf] at h
      split at h <;> cases h
      exact Or.inl ⟨_, Token.isLiteral_number ‹_›, rfl, rfl⟩
  | text ps e =>
      obtain ⟨s, hs, hst⟩ := ok_of_map h
      cases hst
      exact Or.inl ⟨_, Token.isLiteral_text hs, rfl, rfl⟩
  | openList =>
      simp only [growToken.growLeaf] at h
      split at h <;> cases h
      exact Or.inr (Or.inl ⟨rfl, ‹_›, rfl, rfl⟩)
  | openObject =>
      simp only [growToken.growLeaf] at h
      split at h <;> cases h
      exact Or.inr (Or.inr ⟨rfl, ‹_›, rfl, rfl⟩)
  | _ => cases h

theorem skipLeaf_of_growLeaf (h : growToken.growLeaf room stack t = .ok (stack', g')) :
    skipToken.skipLeaf (stack.map Frame.bracket) t =
      .ok (stack'.map Frame.bracket, g'.awaited) := by
  rcases growLeaf_cases h with ⟨v, hv, rfl, rfl⟩ | ⟨rfl, -, rfl, rfl⟩ | ⟨rfl, -, rfl, rfl⟩
  · exact hv.skip _
  · rfl
  · rfl

theorem skipToken_of_growToken (h : growToken room stack g t = .ok (stack', g')) :
    skipToken (stack.map Frame.bracket) g.awaited t =
      .ok (stack'.map Frame.bracket, g'.awaited) := by
  have hleaf := @skipLeaf_of_growLeaf room stack stack' g' t
  rcases stack with _ | ⟨_ | _, stack⟩ <;> cases g <;> cases t <;>
    first
    | (cases h <;> rfl)
    | exact hleaf h
    | (obtain ⟨k, hk, hst⟩ := ok_of_map h
       cases hst
       cases quote_of_textOf hk
       rfl)

theorem skipFrom_of_growFrom (h : growFrom room stack g ts = .ok (v, rest)) :
    skipFrom (stack.map Frame.bracket) g.awaited ts = .ok rest := by
  fun_induction growFrom room stack g ts with
  | case1 v ts =>
      cases h
      rw [List.map_nil, Growth.awaited, skipFrom]
  | case2 => cases h
  | case3 stack g t ts hend stack' g' hstep ih =>
      have hgoes : stack.map Frame.bracket = [] → g.awaited = .separator → False := by
        intro hnil hawaited
        cases g <;> cases hawaited
        exact hend _ (List.map_eq_nil_iff.mp hnil) rfl
      rw [skipFrom.eq_3 _ _ _ _ hgoes, skipToken_of_growToken hstep]
      exact ih h
  | case4 => cases h

theorem growFrom_local (h : growFrom room stack g ts = .ok (v, rest)) :
    ∃ pre, ts = pre ++ rest ∧ ∀ rest', growFrom room stack g (pre ++ rest') = .ok (v, rest') := by
  fun_induction growFrom room stack g ts with
  | case1 v ts =>
      cases h
      exact ⟨[], rfl, fun rest' => by rw [List.nil_append, growFrom]⟩
  | case2 => cases h
  | case3 stack g t ts hend stack' g' hstep ih =>
      obtain ⟨pre, rfl, hpre⟩ := ih h
      refine ⟨t :: pre, rfl, ?_⟩
      intro rest'
      rw [List.cons_append, growFrom.eq_3 _ _ _ _ _ hend, hstep]
      exact hpre rest'
  | case4 => cases h

theorem skip_of_readTree (h : readTree room ts = .ok (v, rest)) : skip ts = .ok rest :=
  skipFrom_of_growFrom h

/-! As much room is enough as there are tokens. -/

theorem growLeaf_room {room' : Nat} (hroom : stack.length < room')
    (h : growToken.growLeaf room stack t = .ok (stack', g')) :
    growToken.growLeaf room' stack t = .ok (stack', g') ∧ stack'.length ≤ stack.length + 1 := by
  rcases growLeaf_cases h with ⟨v, hv, rfl, rfl⟩ | ⟨rfl, -, rfl, rfl⟩ | ⟨rfl, -, rfl, rfl⟩
  · exact ⟨hv.grow _ _, Nat.le_succ _⟩
  · exact ⟨by rw [growToken.growLeaf, if_pos hroom], Nat.le_refl _⟩
  · exact ⟨by rw [growToken.growLeaf, if_pos hroom], Nat.le_refl _⟩

theorem growToken_room {room' : Nat} (hroom : stack.length < room')
    (h : growToken room stack g t = .ok (stack', g')) :
    growToken room' stack g t = .ok (stack', g') ∧ stack'.length ≤ stack.length + 1 := by
  have hleaf := @growLeaf_room room stack stack' g' t room' hroom
  rcases stack with _ | ⟨_ | _, stack⟩ <;> cases g <;> cases t <;>
    first
    | (cases h <;> exact ⟨rfl, by simp +arith⟩)
    | exact hleaf h
    | (refine ⟨h, ?_⟩
       obtain ⟨k, hk, hst⟩ := ok_of_map h
       cases hst
       simp)

theorem growFrom_room {room' : Nat} (hroom : stack.length + ts.length ≤ room')
    (h : growFrom room stack g ts = .ok (v, rest)) :
    growFrom room' stack g ts = .ok (v, rest) := by
  fun_induction growFrom room stack g ts with
  | case1 =>
      rw [growFrom]
      exact h
  | case2 => cases h
  | case3 stack g t ts hend stack' g' hstep ih =>
      rw [List.length_cons] at hroom
      have hfits : stack.length < room' := by omega
      obtain ⟨hstep, hlength⟩ := growToken_room hfits hstep
      rw [growFrom.eq_3 _ _ _ _ _ hend, hstep]
      exact ih (by omega) h
  | case4 => cases h

/-- The value that tokens stand for, if they stand for one. -/
def Value.ofTokens? (ts : List Token) : Option Value :=
  match readTree ts.length ts with
  | .ok (v, []) => some v
  | _ => none

/-- The tokens of a value that was read stand for it. -/
theorem Value.ofTokens?_of_readTree (h : readTree room ts = .ok (v, rest)) :
    Value.ofTokens? (ts.take (ts.length - rest.length)) = some v := by
  obtain ⟨pre, rfl, hpre⟩ := growFrom_local h
  have halone := hpre []
  rw [List.append_nil] at halone
  have hread : readTree pre.length pre = .ok (v, []) := growFrom_room (by simp) halone
  rw [List.length_append, Nat.add_sub_cancel, List.take_left, Value.ofTokens?, hread]

/-! A value inside other brackets is read as it is read alone, with less room. -/

theorem growLeaf_append (hroom : base.length ≤ room) :
    growToken.growLeaf room (stack ++ base) t =
      (growToken.growLeaf (room - base.length) stack t).map fun p => (p.1 ++ base, p.2) := by
  have hlength : (stack ++ base).length < room ↔ stack.length < room - base.length := by
    rw [List.length_append]
    omega
  cases t with
  | number n =>
      simp only [growToken.growLeaf]
      cases n.value? <;> rfl
  | text ps e =>
      simp only [growToken.growLeaf]
      cases textOf ps e <;> rfl
  | openList =>
      simp only [growToken.growLeaf, hlength]
      split <;> rfl
  | openObject =>
      simp only [growToken.growLeaf, hlength]
      split <;> rfl
  | _ => rfl

theorem growToken_value : growToken room stack .value t = growToken.growLeaf room stack t := by
  rcases stack with _ | ⟨_ | _, stack⟩ <;> rfl

theorem growToken_append (hroot : stack ≠ [] ∨ g = .value) (hroom : base.length ≤ room) :
    growToken room (stack ++ base) g t =
      (growToken (room - base.length) stack g t).map fun p => (p.1 ++ base, p.2) := by
  have hleaf := @growLeaf_append room stack base t hroom
  rcases stack with _ | ⟨_ | _, stack⟩
  · obtain rfl := hroot.resolve_left (by simp)
    rw [List.nil_append, growToken_value]
    exact hleaf
  · cases g <;> cases t <;> first | rfl | exact hleaf
  · cases g <;> cases t <;>
      first
      | rfl
      | exact hleaf
      | (simp only [growToken, List.cons_append]
         cases textOf _ _ <;> rfl)

/-- Whether what a reader of trees waits for is inside its own frames, or is the whole value. -/
def Rooted (stack : List Frame) (g : Growth) : Prop :=
  stack ≠ [] ∨ g = .value ∨ ∃ v, g = .grown v

theorem Rooted.of_unfinished (h : Rooted stack g) (hend : ∀ v, stack = [] → g = .grown v → False) :
    stack ≠ [] ∨ g = .value := by
  rcases h with hne | hvalue | ⟨v, rfl⟩
  · exact Or.inl hne
  · exact Or.inr hvalue
  · exact Or.inl fun hnil => hend v hnil rfl

theorem rooted_of_growLeaf (h : growToken.growLeaf room stack t = .ok (stack', g')) :
    Rooted stack' g' := by
  rcases growLeaf_cases h with ⟨v, -, rfl, rfl⟩ | ⟨rfl, -, rfl, rfl⟩ | ⟨rfl, -, rfl, rfl⟩
  · exact Or.inr (Or.inr ⟨v, rfl⟩)
  · exact Or.inl (List.cons_ne_nil _ _)
  · exact Or.inl (List.cons_ne_nil _ _)

theorem rooted_of_growToken (h : growToken room stack g t = .ok (stack', g')) :
    Rooted stack' g' := by
  have hleaf := @rooted_of_growLeaf room stack stack' g' t
  rcases stack with _ | ⟨_ | _, stack⟩ <;> cases g <;> cases t <;>
    first
    | (cases h <;> simp [Rooted])
    | exact hleaf h
    | (obtain ⟨k, hk, hst⟩ := ok_of_map h
       cases hst
       exact Or.inl (List.cons_ne_nil _ _))

theorem growFrom_append (hroot : Rooted stack g) (hroom : base.length ≤ room) (hbase : base ≠ []) :
    growFrom room (stack ++ base) g ts =
      match growFrom (room - base.length) stack g ts with
      | .ok (v, rest) => growFrom room base (.grown v) rest
      | .error f => .error f := by
  have hinside (stack : List Frame) (g : Growth) :
      ∀ v, stack ++ base = [] → g = .grown v → False :=
    fun v hs _ => hbase (List.append_eq_nil_iff.mp hs).2
  fun_induction growFrom (room - base.length) stack g ts with
  | case1 => rfl
  | case2 stack g hend => rw [growFrom.eq_2 _ _ _ (hinside stack g)]
  | case3 stack g t ts hend stack' g' hstep ih =>
      rw [growFrom.eq_3 _ _ _ _ _ (hinside stack g),
        growToken_append (hroot.of_unfinished hend) hroom, hstep]
      exact ih (rooted_of_growToken hstep)
  | case4 stack g t ts hend f hstep =>
      rw [growFrom.eq_3 _ _ _ _ _ (hinside stack g),
        growToken_append (hroot.of_unfinished hend) hroom, hstep]
      rfl

end Trees

end UserDirectory.Json

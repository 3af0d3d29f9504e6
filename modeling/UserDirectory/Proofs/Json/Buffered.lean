import UserDirectory.Proofs.Json.Members

/-!
Records of literals, read at once or from a tree. An object can be read as a tree from which the
members are taken then, or its members can be read as they come. Reading the tree asks for more,
because a value under an unknown key is not skipped; the outcome is the same wherever both succeed.
-/

namespace UserDirectory.Json

variable {α δ : Type} {room : Nat} {k : String} {seen es : List (String × Value)}
  {ts rest : List Token}

theorem Holds.growFrom {g : Growth} (hg : g = .key ∨ g = .firstKey) (h : Holds room ts es rest) :
    growFrom (room + 1) [.object seen k] g ts = .ok (.object (seen.reverse ++ es), rest) := by
  induction h generalizing seen k g with
  | @last ps e key ts rest v hkey hread =>
      rw [growFrom_member hg hkey, hread]
      change Json.growFrom (room + 1) [] (.grown (.object ((key, v) :: seen).reverse)) rest = _
      rw [Json.growFrom, List.reverse_cons]
  | @cons ps e key ts ts' rest v es hkey hread _ ih =>
      rw [growFrom_member hg hkey, hread]
      change Json.growFrom (room + 1) [.object ((key, v) :: seen) key] .key ts' = _
      rw [ih (Or.inl rfl), List.reverse_cons, List.append_assoc, List.singleton_append]

namespace Record

variable {r : Record α δ} {draft draft' : δ} {key : String} {v : Value} {fuel : Nat} {a : α}

theorem readMember_of_take (hliterals : ∀ f ∈ r.fields, f.value.OfLiterals)
    (hread : readTree room ts = .ok (v, rest))
    (htake : r.takeMembers draft ((key, v) :: es) = .ok draft') :
    ∃ draft₁, r.readMember key draft (.colon :: ts) = .ok (draft₁, rest) ∧
      r.takeMembers draft₁ es = .ok draft' := by
  rw [takeMembers] at htake
  split at htake
  · rename_i hf
    refine ⟨draft, ?_, htake⟩
    simp only [readMember, hf, skip_of_readTree hread, Except.map]
  · rename_i f hf
    split at htake
    · cases htake
    · rename_i hfree
      split at htake
      · rename_i set hset
        have hf' := hliterals f (mem_of_field? hf)
        obtain ⟨t, rfl, ht⟩ := isLiteral_of_readTree hread (hf'.simple hset)
        refine ⟨set draft, ?_, htake⟩
        simp only [readMember, hf, hfree, hf'.read ht hset, Except.map]
        rfl
      · cases htake

theorem readMembers_of_holds (hliterals : ∀ f ∈ r.fields, f.value.OfLiterals)
    (h : Holds room ts es rest) (htake : r.takeMembers draft es = .ok draft') :
    ∀ fuel, ts.length ≤ fuel → r.readMembers fuel draft ts = .ok (draft', rest) := by
  induction h generalizing draft with
  | last hkey hread =>
      intro fuel hfuel
      obtain ⟨draft₁, hmember, hdone⟩ := readMember_of_take hliterals hread htake
      cases hdone
      cases fuel with
      | zero => cases hfuel
      | succ fuel => simp only [readMembers, hkey, hmember]
  | cons hkey hread _ ih =>
      intro fuel hfuel
      obtain ⟨draft₁, hmember, hrest⟩ := readMember_of_take hliterals hread htake
      cases fuel with
      | zero => cases hfuel
      | succ fuel =>
          have hle := length_le_of_readTree hread
          simp only [List.length_cons] at hfuel hle
          simp only [readMembers, hkey, hmember, ih hrest fuel (by omega)]

theorem read_object (hopen : ∀ ts', ts ≠ .closeObject :: ts') :
    r.decoder.read (.openObject :: ts) =
      match r.readMembers ts.length r.empty ts with
      | .ok (draft, rest) => (Decoder.lift (r.close draft)).map fun a => (a, rest)
      | .error f => .error f := by
  cases ts with
  | nil => rfl
  | cons t ts => cases t <;> first | rfl | exact absurd rfl (hopen _)

theorem take_object_eq_ok :
    r.decoder.take (.object es) = .ok a ↔
      ∃ draft, r.takeMembers r.empty es = .ok draft ∧ r.close draft = .ok a := by
  simp only [decoder]
  cases r.takeMembers r.empty es with
  | error m => simp [Except.bind]
  | ok draft => simp [Except.bind]

/-- A record that is taken from a tree is also read as it comes. -/
theorem read_of_growFrom (hliterals : ∀ f ∈ r.fields, f.value.OfLiterals)
    (h : growFrom (room + 1) [.object [] k] .firstKey ts = .ok (.object es, rest))
    (htake : r.decoder.take (.object es) = .ok a) :
    r.decoder.read (.openObject :: ts) = .ok (a, rest) := by
  obtain ⟨draft, hdraft, hclose⟩ := take_object_eq_ok.mp htake
  rcases object_of_growFrom h with ⟨rfl, he⟩ | ⟨hopen, es, he, hes⟩
  · cases he
    cases hdraft
    simp only [decoder, hclose, Decoder.lift, Except.map]
  · cases he
    have hread := readMembers_of_holds hliterals hes hdraft _ (Nat.le_refl _)
    simp only [read_object hopen, hread, hclose, Decoder.lift, Except.map]

theorem take_of_readMember (hliterals : ∀ f ∈ r.fields, f.value.OfLiterals)
    (hknown : r.field? key ≠ none) (h : r.readMember key draft ts = .ok (draft', rest)) :
    ∃ ts' v, ts = .colon :: ts' ∧ (∀ room, readTree room ts' = .ok (v, rest)) ∧
      ∀ es, r.takeMembers draft ((key, v) :: es) = r.takeMembers draft' es := by
  rw [readMember.eq_def] at h
  split at h
  · rename_i f hf
    split at h
    · cases h
    · rename_i hfree
      split at h
      · obtain ⟨⟨set, rest⟩, hread, hdraft⟩ := ok_of_map h
        cases hdraft
        obtain ⟨t, v, rfl, ht, htake⟩ := (hliterals f (mem_of_field? hf)).token hread
        refine ⟨_, v, rfl, fun room => readTree_literal ht _, fun es => ?_⟩
        simp only [takeMembers, hf, hfree, htake]
        rfl
      · cases h
  · exact absurd ‹_› hknown

theorem holds_of_readMembers (hliterals : ∀ f ∈ r.fields, f.value.OfLiterals)
    (h : r.readMembers fuel draft ts = .ok (draft', rest))
    (hknown : ∀ ms, membersFrom fuel ts = some ms → ∀ m ∈ ms, r.field? m.1 ≠ none) :
    ∃ es, Holds room ts es rest ∧ r.takeMembers draft es = .ok draft' := by
  obtain ⟨ms, hms, -⟩ := gathers_of_readMembers hliterals h
  replace hknown := hknown ms hms
  fun_induction r.readMembers fuel draft ts generalizing ms with
  | case3 fuel draft ps e ts key hkey draft' rest hmember =>
      cases h
      obtain ⟨ts, rfl, hskip, -⟩ := adds_of_readMember hliterals hmember
      simp only [membersFrom, hkey, hskip, Option.some.injEq] at hms
      subst hms
      obtain ⟨_, v, he, hread, htake⟩ :=
        take_of_readMember hliterals (hknown _ (List.mem_cons_self ..)) hmember
      cases he
      exact ⟨_, .last hkey (hread room), htake []⟩
  | case4 fuel draft ps e ts key hkey draft₁ rest hmember ih =>
      obtain ⟨ts, rfl, hskip, -⟩ := adds_of_readMember hliterals hmember
      simp only [membersFrom, hkey, hskip, Option.map_eq_some_iff] at hms
      obtain ⟨ms, hms, rfl⟩ := hms
      obtain ⟨_, v, he, hread, htake⟩ :=
        take_of_readMember hliterals (hknown _ (List.mem_cons_self ..)) hmember
      cases he
      obtain ⟨es, hes, hdraft⟩ := ih h ms hms fun m hm => hknown m (List.mem_cons_of_mem _ hm)
      exact ⟨_, .cons hkey (hread room) hes, (htake es).trans hdraft⟩
  | _ => cases h

/-- A record that is read as it comes is also taken from a tree, if no member is skipped. -/
theorem growFrom_of_read (hliterals : ∀ f ∈ r.fields, f.value.OfLiterals)
    (h : r.decoder.read (.openObject :: ts) = .ok (a, rest))
    (hknown : ∀ m ∈ membersOf (.openObject :: ts), r.field? m.1 ≠ none) :
    ∃ es, Json.growFrom (room + 1) [.object [] k] .firstKey ts = .ok (.object es, rest) ∧
      r.decoder.take (.object es) = .ok a := by
  by_cases hclosed : ∃ ts', ts = .closeObject :: ts'
  · obtain ⟨ts, rfl⟩ := hclosed
    simp only [decoder] at h
    obtain ⟨hclose, rfl⟩ := map_lift_eq_ok.mp h
    refine ⟨[], ?_, take_object_eq_ok.mpr ⟨_, rfl, hclose⟩⟩
    change Json.growFrom (room + 1) [] (.grown (.object [])) ts = _
    rw [Json.growFrom]
  · have hopen : ∀ ts', ts ≠ .closeObject :: ts' := fun ts' he => hclosed ⟨ts', he⟩
    rw [read_object hopen] at h
    rw [membersOf.eq_2 _ hopen] at hknown
    split at h
    · rename_i draft rest' hmembers
      have hkeys (ms : List (String × Option Value)) (hms : membersFrom ts.length ts = some ms) :
          ∀ m ∈ ms, r.field? m.1 ≠ none := by
        rw [hms] at hknown
        exact hknown
      obtain ⟨hclose, rfl⟩ := map_lift_eq_ok.mp h
      obtain ⟨es, hes, hdraft⟩ := holds_of_readMembers hliterals hmembers hkeys
      exact ⟨es, hes.growFrom (Or.inr rfl), take_object_eq_ok.mpr ⟨draft, hdraft, hclose⟩⟩
    · cases h

end Record

end UserDirectory.Json

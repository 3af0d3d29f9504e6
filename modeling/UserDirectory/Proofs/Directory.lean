import Mathlib.Data.List.Basic
import Mathlib.Data.List.Infix
import Mathlib.Data.List.Nodup
import UserDirectory.Directory

namespace UserDirectory

/-- No identifier that is drawn before place `n` is nil, and none is drawn twice. -/
def Mint.Fresh (mint : Mint) (n : Nat) : Prop :=
  ∀ i < n, mint i ≠ .nil ∧ ∀ j < i, mint j ≠ mint i

instance (mint : Mint) (n : Nat) : Decidable (mint.Fresh n) :=
  inferInstanceAs (Decidable (∀ i < n, mint i ≠ .nil ∧ ∀ j < i, mint j ≠ mint i))

theorem Mint.Fresh.mono {mint : Mint} {m n : Nat} (h : mint.Fresh n) (hle : m ≤ n) :
    mint.Fresh m :=
  fun i hi => h i (Nat.lt_of_lt_of_le hi hle)

def StoreRequest.IsRead : StoreRequest → Prop
  | .get _ | .getByEmail _ => True
  | _ => False

/-- What holds of every identity when `n` identifiers have been drawn. -/
structure Identity.Sound (mint : Mint) (n : Nat) (i : Identity) : Prop where
  minted : ∃ k < n, i.id = mint k
  versions_ne_nil : i.versions ≠ []
  owned : ∀ u ∈ i.versions, u.id = i.id
  versionIds_minted : ∀ u ∈ i.versions, ∃ k < n, u.versionId = mint k
  versionIds_nodup : (i.versions.map (·.versionId)).Nodup

theorem Identity.Sound.mono {mint : Mint} {m n : Nat} {i : Identity} (h : i.Sound mint m)
    (hle : m ≤ n) : i.Sound mint n where
  minted := by
    obtain ⟨k, hk, he⟩ := h.minted
    exact ⟨k, Nat.lt_of_lt_of_le hk hle, he⟩
  versions_ne_nil := h.versions_ne_nil
  owned := h.owned
  versionIds_minted := by
    intro u hu
    obtain ⟨k, hk, he⟩ := h.versionIds_minted u hu
    exact ⟨k, Nat.lt_of_lt_of_le hk hle, he⟩
  versionIds_nodup := h.versionIds_nodup

namespace Directory

variable {mint : Mint} {d d' : Directory} {id id' : Uuid} {u v : User} {i : Identity}
  {is : List Identity}

/-- All versions of a user, earliest first, whether or not the user was deleted. -/
def history (d : Directory) (id : Uuid) : List User := ((d.identity? id).map (·.versions)).getD []

def IsDeleted (d : Directory) (id : Uuid) : Prop :=
  ∃ i, d.identity? id = some i ∧ i.isDeleted = true

def view (d : Directory) (id : Uuid) : Option User := (d.identity? id).bind Identity.current?

structure Sound (mint : Mint) (d : Directory) : Prop where
  sorted : d.identities.Pairwise (·.id < ·.id)
  identity : ∀ {id i}, d.identity? id = some i → i.Sound mint d.drawn

theorem id_of_identity? (h : d.identity? id = some i) : i.id = id := by
  simpa using List.find?_some h

theorem find?_insert (i : Identity) (is : List Identity) (id : Uuid) :
    (insert i is).find? (·.id = id) = if id = i.id then some i else is.find? (·.id = id) := by
  induction is with
  | nil =>
      rw [insert]
      by_cases hid : id = i.id
      · simp [hid]
      · simp [hid, Ne.symm hid]
  | cons j rest ih =>
      rw [insert]
      by_cases hid : id = i.id
      · subst id
        rw [if_pos rfl] at ih ⊢
        split_ifs with hlt heq
        · simp
        · simp
        · simp [Ne.symm heq, ih]
      · rw [if_neg hid] at ih ⊢
        split_ifs with hlt heq
        · simp [Ne.symm hid]
        · simp [← heq, Ne.symm hid]
        · simp only [List.find?_cons, ih]

theorem find?_update (f : Identity → Identity) (hf : ∀ i, (f i).id = i.id) :
    (update id f is).find? (·.id = id') =
      if id' = id then (is.find? (·.id = id)).map f else is.find? (·.id = id') := by
  induction is with
  | nil => simp [update]
  | cons j rest ih =>
      simp only [update, List.map_cons] at ih ⊢
      by_cases hj : j.id = id
      · rw [if_pos hj]
        by_cases hid : id' = id
        · simp [hf, hj, hid]
        · have hne : ¬ id = id' := Ne.symm hid
          simp only [List.find?_cons, hf, hj, hne, decide_false, ih, if_neg hid]
      · rw [if_neg hj]
        by_cases hid : id' = id
        · subst hid
          simp only [List.find?_cons, hj, decide_false, ih, if_true]
        · simp only [List.find?_cons, ih, if_neg hid]

theorem mem_insert {j : Identity} (h : j ∈ insert i is) : j = i ∨ j ∈ is := by
  induction is with
  | nil => exact Or.inl (List.mem_singleton.mp h)
  | cons k rest ih =>
      rw [insert] at h
      split_ifs at h
      · exact List.mem_cons.mp h
      · rcases List.mem_cons.mp h with h | h
        · exact Or.inl h
        · exact Or.inr (List.mem_cons_of_mem _ h)
      · rcases List.mem_cons.mp h with rfl | h
        · exact Or.inr List.mem_cons_self
        · rcases ih h with h | h
          · exact Or.inl h
          · exact Or.inr (List.mem_cons_of_mem _ h)

theorem sorted_insert (h : is.Pairwise (·.id < ·.id)) :
    (insert i is).Pairwise (·.id < ·.id) := by
  induction is with
  | nil => simp [insert]
  | cons j rest ih =>
      rw [List.pairwise_cons] at h
      rw [insert]
      split_ifs with hlt heq
      · refine List.pairwise_cons.mpr ⟨?_, List.pairwise_cons.mpr h⟩
        intro k hk
        rcases List.mem_cons.mp hk with rfl | hk
        · exact hlt
        · exact Nat.lt_trans hlt (h.1 k hk)
      · refine List.pairwise_cons.mpr ⟨?_, h.2⟩
        intro k hk
        rw [heq]
        exact h.1 k hk
      · refine List.pairwise_cons.mpr ⟨?_, ih h.2⟩
        intro k hk
        rcases mem_insert hk with rfl | hk
        · have hne : j.id.toNat ≠ k.id.toNat := fun he => heq (Uuid.ext_toNat he.symm)
          exact Nat.lt_of_le_of_ne (Nat.le_of_not_lt hlt) hne
        · exact h.1 k hk

theorem sorted_update {f : Identity → Identity} (hf : ∀ i, (f i).id = i.id)
    (h : is.Pairwise (·.id < ·.id)) : (update id f is).Pairwise (·.id < ·.id) := by
  rw [update, List.pairwise_map]
  refine h.imp ?_
  intro a b hab
  split_ifs <;> simpa only [hf] using hab

theorem find?_of_mem (h : is.Pairwise (·.id < ·.id)) (hi : i ∈ is) :
    is.find? (·.id = i.id) = some i := by
  induction is with
  | nil => cases hi
  | cons j rest ih =>
      rw [List.pairwise_cons] at h
      rcases List.mem_cons.mp hi with rfl | hi
      · simp
      · have hne : j.id ≠ i.id := by
          intro he
          have hlt : j.id.toNat < i.id.toNat := h.1 i hi
          rw [he] at hlt
          exact Nat.lt_irrefl _ hlt
        simpa [hne] using ih h.2 hi

theorem Sound.identity?_of_mem (h : d.Sound mint) (hi : i ∈ d.identities) :
    d.identity? i.id = some i :=
  find?_of_mem h.sorted hi

theorem sound_empty (mint : Mint) : Sound mint {} where
  sorted := List.Pairwise.nil
  identity h := by cases h

theorem Sound.id_of_mem_history (h : d.Sound mint) (hu : u ∈ d.history id) : u.id = id := by
  rcases hi : d.identity? id with _ | i
  · simp [history, hi] at hu
  · simp only [history, hi, Option.map_some, Option.getD_some] at hu
    exact ((h.identity hi).owned u hu).trans (id_of_identity? hi)

theorem Sound.versionId_minted (h : d.Sound mint) (hu : u ∈ d.history id) :
    ∃ k < d.drawn, u.versionId = mint k := by
  rcases hi : d.identity? id with _ | i
  · simp [history, hi] at hu
  · simp only [history, hi, Option.map_some, Option.getD_some] at hu
    exact (h.identity hi).versionIds_minted u hu

theorem Sound.versionIds_nodup (h : d.Sound mint) (id : Uuid) :
    ((d.history id).map (·.versionId)).Nodup := by
  rcases hi : d.identity? id with _ | i
  · simp [history, hi]
  · simp only [history, hi, Option.map_some, Option.getD_some]
    exact (h.identity hi).versionIds_nodup

theorem Sound.nodup_history (h : d.Sound mint) (id : Uuid) : (d.history id).Nodup :=
  List.Nodup.of_map _ (h.versionIds_nodup id)

theorem view_eq_some_iff : d.view id = some u ↔
    ∃ i, d.identity? id = some i ∧ i.isDeleted = false ∧ i.versions.getLast? = some u := by
  rw [view, Option.bind_eq_some_iff]
  refine exists_congr fun i => and_congr_right fun _ => ?_
  cases hd : i.isDeleted <;> simp [Identity.current?, Identity.latest?, hd]

theorem getLast?_history_of_view (h : d.view id = some u) : (d.history id).getLast? = some u := by
  obtain ⟨i, hi, -, hlast⟩ := view_eq_some_iff.mp h
  simpa [history, hi] using hlast

theorem mem_history_of_view (h : d.view id = some u) : u ∈ d.history id :=
  List.mem_of_getLast? (getLast?_history_of_view h)

theorem Sound.id_of_view (h : d.Sound mint) (hu : d.view id = some u) : u.id = id :=
  h.id_of_mem_history (mem_history_of_view hu)

theorem Sound.view_eq_none (h : d.Sound mint) (hv : d.view id = none) :
    d.identity? id = none ∨ d.IsDeleted id := by
  rcases hi : d.identity? id with _ | i
  · exact Or.inl rfl
  · refine Or.inr ⟨i, hi, ?_⟩
    by_contra hd
    rw [Bool.not_eq_true] at hd
    rcases hu : i.versions.getLast? with _ | u
    · exact (h.identity hi).versions_ne_nil (List.getLast?_eq_none_iff.mp hu)
    · rw [view_eq_some_iff.mpr ⟨i, hi, hd, hu⟩] at hv
      cases hv

/-- One identity of a directory is put in place, and all others stay as they are. -/
def Changes (d d' : Directory) (i : Identity) : Prop :=
  ∀ id, d'.identity? id = if id = i.id then some i else d.identity? id

theorem Changes.sound (hc : d.Changes d' i) (h : d.Sound mint)
    (hsorted : d'.identities.Pairwise (·.id < ·.id)) (hi : i.Sound mint d'.drawn)
    (hle : d.drawn ≤ d'.drawn) : d'.Sound mint where
  sorted := hsorted
  identity := by
    intro id j hj
    rw [hc] at hj
    split_ifs at hj
    · cases hj
      exact hi
    · exact (h.identity hj).mono hle

theorem Sound.sound_append (h : d.Sound mint) {n : Nat} (hn : d.drawn < n) (hm : mint.Fresh n)
    (hid : ∃ k < n, v.id = mint k) (hv : v.versionId = mint d.drawn) :
    (⟨v.id, false, d.history v.id ++ [v]⟩ : Identity).Sound mint n where
  minted := hid
  versions_ne_nil := by simp
  owned := by
    intro u hu
    rcases List.mem_append.mp hu with hu | hu
    · exact h.id_of_mem_history hu
    · rw [List.mem_singleton.mp hu]
  versionIds_minted := by
    intro u hu
    rcases List.mem_append.mp hu with hu | hu
    · obtain ⟨k, hk, he⟩ := h.versionId_minted hu
      exact ⟨k, Nat.lt_trans hk hn, he⟩
    · rw [List.mem_singleton.mp hu]
      exact ⟨d.drawn, hn, hv⟩
  versionIds_nodup := by
    rw [List.map_append, List.map_singleton, List.nodup_append]
    refine ⟨h.versionIds_nodup v.id, List.pairwise_singleton _ _, ?_⟩
    rintro a ha b hb rfl
    obtain ⟨u, hu, rfl⟩ := List.mem_map.mp ha
    obtain ⟨k, hk, he⟩ := h.versionId_minted hu
    rw [List.mem_singleton.mp hb] at he
    exact (hm d.drawn hn).2 k hk (he.symm.trans hv)

def append (v : User) (i : Identity) : Identity := { i with versions := i.versions ++ [v] }

theorem Changes.of_update (hd' : d'.identities = update v.id (append v) is)
    (hi : is.find? (·.id = v.id) = some i) (hlive : i.isDeleted = false)
    (hversions : i.versions = d.history v.id)
    (hothers : ∀ id, id ≠ v.id → is.find? (·.id = id) = d.identity? id) :
    d.Changes d' ⟨v.id, false, d.history v.id ++ [v]⟩ := by
  intro id
  have hid : i.id = v.id := by simpa using List.find?_some hi
  rw [identity?, hd', find?_update (append v) (fun _ => rfl)]
  split_ifs with he
  · rw [hi, Option.map_some, append, hversions, hlive, hid]
  · exact hothers id he

/-- What a save that succeeds has done: it has appended a fresh version to one identity. -/
structure Appends (mint : Mint) (d d' : Directory) (v : User) : Prop where
  live : ¬ d.IsDeleted v.id
  versionId : v.versionId = mint d.drawn
  sound : d'.Sound mint
  changes : d.Changes d' ⟨v.id, false, d.history v.id ++ [v]⟩

theorem save_of_isNil (mint : Mint) (d : Directory) (hu : u.id.isNil = true) :
    let v : User :=
      { u with id := mint (d.drawn + 1), versionId := mint d.drawn, isLatestVersion := true }
    d.save mint u = (.ok v,
      { d with
        identities := update v.id (append v) (insert { id := v.id } d.identities)
        drawn := d.drawn + 2 }) := by
  simp [save, User.stage, hu, identity?, find?_insert]
  rfl

theorem Sound.save_new (h : d.Sound mint) (hm : mint.Fresh (d.save mint u).2.drawn)
    (hu : u.id.isNil = true) :
    ∃ v, (d.save mint u).1 = .ok v ∧ Appends mint d (d.save mint u).2 v := by
  let v : User :=
    { u with id := mint (d.drawn + 1), versionId := mint d.drawn, isLatestVersion := true }
  let d' : Directory :=
    { d with
      identities := update v.id (append v) (insert { id := v.id } d.identities)
      drawn := d.drawn + 2 }
  have hsave : d.save mint u = (.ok v, d') := save_of_isNil mint d hu
  rw [hsave] at hm ⊢
  have hnone : d.identity? v.id = none := by
    rcases hi : d.identity? v.id with _ | i
    · rfl
    · obtain ⟨k, hk, he⟩ := (h.identity hi).minted
      rw [id_of_identity? hi] at he
      exact absurd he.symm ((hm (d.drawn + 1) (Nat.lt_succ_self _)).2 k (Nat.lt_succ_of_lt hk))
  have hchanges : d.Changes d' ⟨v.id, false, d.history v.id ++ [v]⟩ := by
    refine Changes.of_update (i := { id := v.id }) rfl ?_ rfl (by simp [history, hnone]) ?_
    · rw [find?_insert, if_pos rfl]
    · intro id hid
      rw [find?_insert, if_neg hid]
      rfl
  refine ⟨v, rfl, ?_, rfl, hchanges.sound h ?_ ?_ (by simp [d']), hchanges⟩
  · rintro ⟨i, hi, -⟩
    rw [hnone] at hi
    cases hi
  · exact sorted_update (fun _ => rfl) (sorted_insert h.sorted)
  · exact h.sound_append (by simp [d']) hm ⟨d.drawn + 1, Nat.lt_succ_self _, rfl⟩ rfl

theorem Sound.save_existing (h : d.Sound mint) (hm : mint.Fresh (d.save mint u).2.drawn)
    (hu : ¬ u.id.isNil = true) (hi : d.identity? u.id = some i) (hlive : i.isDeleted = false) :
    ∃ v, (d.save mint u).1 = .ok v ∧ Appends mint d (d.save mint u).2 v := by
  have hfind : List.find? (fun x => decide (x.id = u.id)) d.identities = some i := hi
  let v : User := { u with versionId := mint d.drawn, isLatestVersion := true }
  let d' : Directory :=
    { d with
      identities := update v.id (append v) d.identities
      drawn := d.drawn + 1 }
  have hsave : d.save mint u = (.ok v, d') := by
    simp [save, User.stage, hu, identity?, hfind, hlive, v, d']
    rfl
  rw [hsave] at hm ⊢
  have hchanges : d.Changes d' ⟨v.id, false, d.history v.id ++ [v]⟩ :=
    Changes.of_update rfl hfind hlive (by simp [history, hi, v]) fun _ _ => rfl
  refine ⟨v, rfl, ?_, rfl, hchanges.sound h ?_ ?_ (by simp [d']), hchanges⟩
  · rintro ⟨j, hj, hdel⟩
    rw [show d.identity? v.id = some i from hi] at hj
    cases hj
    rw [hlive] at hdel
    cases hdel
  · exact sorted_update (fun _ => rfl) h.sorted
  · obtain ⟨k, hk, he⟩ := (h.identity hi).minted
    rw [id_of_identity? hi] at he
    exact h.sound_append (by simp [d']) hm ⟨k, Nat.lt_succ_of_lt hk, he⟩ rfl

/-- A save either appends a fresh version to one identity, or it finds no user and changes
nothing. -/
theorem Sound.save_spec (h : d.Sound mint) (hm : mint.Fresh (d.save mint u).2.drawn) :
    (∃ v, (d.save mint u).1 = .ok v ∧ Appends mint d (d.save mint u).2 v) ∨
      ((d.save mint u).1 = .error (.notFound u.id) ∧ d.view u.id = none ∧
        (d.save mint u).2.identities = d.identities) := by
  by_cases hu : u.id.isNil = true
  · exact Or.inl (h.save_new hm hu)
  · rcases hi : d.identity? u.id with _ | i
    · have hfind : List.find? (fun x => decide (x.id = u.id)) d.identities = none := hi
      have hsave : d.save mint u = (.error (.notFound u.id), { d with drawn := d.drawn + 1 }) := by
        simp [save, User.stage, hu, identity?, hfind]
      rw [hsave]
      exact Or.inr ⟨rfl, by simp [view, hi], rfl⟩
    · have hfind : List.find? (fun x => decide (x.id = u.id)) d.identities = some i := hi
      cases hlive : i.isDeleted with
      | true =>
          have hsave : d.save mint u =
              (.error (.notFound u.id), { d with drawn := d.drawn + 1 }) := by
            simp [save, User.stage, hu, identity?, hfind, hlive]
          rw [hsave]
          exact Or.inr ⟨rfl, by simp [view, hi, Identity.current?, hlive], rfl⟩
      | false => exact Or.inl (h.save_existing hm hu hi hlive)

/-- A deletion either marks one identity, or it finds no user and changes nothing. -/
theorem Sound.delete_spec (h : d.Sound mint) (id : Uuid) :
    (∃ i, (d.delete id).1 = .ok () ∧ d.identity? id = some i ∧ i.isDeleted = false ∧
        (d.delete id).2.Sound mint ∧ d.Changes (d.delete id).2 { i with isDeleted := true } ∧
        (d.delete id).2.drawn = d.drawn) ∨
      ((d.delete id).1 = .error (.notFound id) ∧ d.view id = none ∧ (d.delete id).2 = d) := by
  rcases hi : d.identity? id with _ | i
  · refine Or.inr ⟨?_, ?_, ?_⟩ <;> simp [delete, view, hi]
  · cases hlive : i.isDeleted with
    | true => refine Or.inr ⟨?_, ?_, ?_⟩ <;> simp [delete, view, hi, Identity.current?, hlive]
    | false =>
        have hid := id_of_identity? hi
        let mark (i : Identity) : Identity := { i with isDeleted := true }
        let d' : Directory := { d with identities := update id mark d.identities }
        have hdelete : d.delete id = (.ok (), d') := by
          simp only [delete, hi, hlive]
          rfl
        rw [hdelete]
        have hchanges : d.Changes d' (mark i) := by
          intro id'
          show List.find? _ (update id mark d.identities) = _
          rw [find?_update mark (fun _ => rfl)]
          have hfind : List.find? (fun x => decide (x.id = id)) d.identities = some i := hi
          rw [hfind, Option.map_some, show (mark i).id = id from hid]
          rfl
        have hsound : (mark i).Sound mint d.drawn :=
          ⟨(h.identity hi).minted, (h.identity hi).versions_ne_nil, (h.identity hi).owned,
            (h.identity hi).versionIds_minted, (h.identity hi).versionIds_nodup⟩
        exact Or.inl ⟨i, rfl, rfl, hlive, hchanges.sound h (sorted_update (fun _ => rfl) h.sorted)
          hsound (Nat.le_refl _), hchanges, rfl⟩

/-- Whatever is in one directory is in another, in which more may have happened. -/
structure Extends (d d' : Directory) : Prop where
  history : ∀ id, d.history id <+: d'.history id
  isDeleted : ∀ id, d.IsDeleted id → d'.IsDeleted id
  drawn : d.drawn ≤ d'.drawn

theorem Extends.refl (d : Directory) : d.Extends d :=
  ⟨fun _ => List.prefix_rfl, fun _ h => h, Nat.le_refl _⟩

theorem Extends.trans {d'' : Directory} (h : d.Extends d') (h' : d'.Extends d'') :
    d.Extends d'' :=
  ⟨fun id => (h.history id).trans (h'.history id), fun id hd => h'.isDeleted id (h.isDeleted id hd),
    Nat.le_trans h.drawn h'.drawn⟩

theorem Changes.extends (hc : d.Changes d' i) (hversions : d.history i.id <+: i.versions)
    (hdeleted : d.IsDeleted i.id → i.isDeleted = true) (hle : d.drawn ≤ d'.drawn) :
    d.Extends d' where
  history := by
    intro id
    rw [history, history, hc]
    split_ifs with hid
    · subst hid
      exact hversions
    · exact List.prefix_rfl
  isDeleted := by
    rintro id ⟨j, hj, hdel⟩
    by_cases hid : id = i.id
    · exact ⟨i, by rw [hc, if_pos hid], hdeleted ⟨j, hid ▸ hj, hdel⟩⟩
    · exact ⟨j, by rw [hc, if_neg hid, hj], hdel⟩
  drawn := hle

theorem Extends.of_identities (h : d'.identities = d.identities) (hle : d.drawn ≤ d'.drawn) :
    d.Extends d' := by
  have hsame : ∀ id, d'.identity? id = d.identity? id := by
    intro id
    rw [identity?, h]
    rfl
  refine ⟨fun id => ?_, fun id => ?_, hle⟩
  · rw [Directory.history, Directory.history, hsame]
  · rintro ⟨i, hi, hdel⟩
    exact ⟨i, (hsame id).trans hi, hdel⟩

theorem Sound.of_identities (h : d.Sound mint) (he : d'.identities = d.identities)
    (hle : d.drawn ≤ d'.drawn) : d'.Sound mint where
  sorted := he ▸ h.sorted
  identity := by
    intro id i hi
    rw [identity?, he] at hi
    exact (h.identity hi).mono hle

theorem history_append (hc : d.Changes d' ⟨v.id, false, d.history v.id ++ [v]⟩) :
    d'.history v.id = d.history v.id ++ [v] := by
  simp [history, hc v.id]

theorem view_append (hc : d.Changes d' ⟨v.id, false, d.history v.id ++ [v]⟩) (id : Uuid) :
    d'.view id = if id = v.id then some v else d.view id := by
  rw [view, hc]
  split_ifs with hid
  · simp [Identity.current?, Identity.latest?]
  · rfl

theorem drawn_le_serve (mint : Mint) (d : Directory) (q : StoreRequest) :
    d.drawn ≤ (d.serve mint q).2.drawn := by
  cases q with
  | save u =>
      have hnext : d.drawn ≤ (u.stage mint d.drawn).next := by
        simp only [User.stage]
        split_ifs
        · exact Nat.le_add_right _ 2
        · exact Nat.le_succ _
      simp only [serve, save]
      split
      · split <;> exact hnext
      · exact hnext
  | delete id =>
      simp only [serve, delete]
      split
      · split <;> exact Nat.le_refl _
      · exact Nat.le_refl _
  | get id => exact Nat.le_refl _
  | query p => exact Nat.le_refl _
  | getVersion v => exact Nat.le_refl _
  | getByEmail e => exact Nat.le_refl _

theorem Sound.serve (h : d.Sound mint) (q : StoreRequest)
    (hm : mint.Fresh (d.serve mint q).2.drawn) :
    (d.serve mint q).2.Sound mint ∧ d.Extends (d.serve mint q).2 := by
  have hle := drawn_le_serve mint d q
  have hcount : (d.count q).Sound mint := h.of_identities rfl (Nat.le_refl _)
  have hsame : (d.serve mint q).2.identities = d.identities →
      (d.serve mint q).2.Sound mint ∧ d.Extends (d.serve mint q).2 :=
    fun he => ⟨h.of_identities he hle, .of_identities he hle⟩
  cases q with
  | save u =>
      rcases hcount.save_spec (u := u) hm with ⟨v, -, hlive, -, hsound, hc⟩ | ⟨-, -, he⟩
      · have hc' : d.Changes _ ⟨v.id, false, d.history v.id ++ [v]⟩ := hc
        exact ⟨hsound, hc'.extends (List.prefix_append _ _) (fun hd => absurd hd hlive) hle⟩
      · exact hsame he
  | delete id =>
      rcases hcount.delete_spec id with ⟨i, -, hi, -, hsound, hc, -⟩ | ⟨-, -, he⟩
      · have hc' : d.Changes _ { i with isDeleted := true } := hc
        have hversions : d.history i.id = i.versions := by
          rw [id_of_identity? hi]
          have hi' : d.identity? id = some i := hi
          simp [history, hi']
        exact ⟨hsound, hc'.extends (hversions ▸ List.prefix_rfl) (fun _ => rfl) hle⟩
      · exact hsame (congrArg (·.identities) he)
  | get id => exact hsame rfl
  | query p => exact hsame rfl
  | getVersion v => exact hsame rfl
  | getByEmail e => exact hsame rfl

theorem serve_save_ok (h : d.Sound mint) (hm : mint.Fresh (d.serve mint (.save u)).2.drawn)
    {a : StoreAnswer} (hr : (d.serve mint (.save u)).1 = .ok a) :
    ∃ v, a = .user v ∧ ¬ d.IsDeleted v.id ∧
      d.Changes (d.serve mint (.save u)).2 ⟨v.id, false, d.history v.id ++ [v]⟩ := by
  have hcount : (d.count (.save u)).Sound mint := h.of_identities rfl (Nat.le_refl _)
  rcases hcount.save_spec (u := u) hm with ⟨v, hok, hlive, -, -, hc⟩ | ⟨herr, -⟩
  · have ha : (d.serve mint (.save u)).1 = (((d.count (.save u)).save mint u).1.map .user) := rfl
    rw [ha, hok] at hr
    cases hr
    exact ⟨v, rfl, hlive, hc⟩
  · have ha : (d.serve mint (.save u)).1 = (((d.count (.save u)).save mint u).1.map .user) := rfl
    rw [ha, herr] at hr
    cases hr

theorem serve_delete_ok (h : d.Sound mint) {a : StoreAnswer}
    (hr : (d.serve mint (.delete id)).1 = .ok a) :
    ∃ i, a = .done ∧ i.id = id ∧ i.isDeleted = true ∧
      d.Changes (d.serve mint (.delete id)).2 i := by
  have hcount : (d.count (.delete id)).Sound mint := h.of_identities rfl (Nat.le_refl _)
  have hreply : (d.serve mint (.delete id)).1 =
      ((d.count (.delete id)).delete id).1.map fun _ => .done := rfl
  rcases hcount.delete_spec id with ⟨i, hok, hi, -, -, hc, -⟩ | ⟨herr, -⟩
  · rw [hreply, hok] at hr
    cases hr
    have hid : i.id = id := id_of_identity? hi
    exact ⟨{ i with isDeleted := true }, rfl, hid, rfl, hc⟩
  · rw [hreply, herr] at hr
    cases hr

theorem Changes.isDeleted (hc : d.Changes d' i) (hi : i.isDeleted = true) : d'.IsDeleted i.id :=
  ⟨i, by rw [hc, if_pos rfl], hi⟩

theorem serve_get (mint : Mint) (d : Directory) (id : Uuid) :
    (d.serve mint (.get id)).1 =
      match d.view id with
      | some u => .ok (.user u)
      | none => .error (.notFound id) := by
  have hreply : (d.serve mint (.get id)).1 = (d.get id).map .user := rfl
  rw [hreply, get, ← view]
  cases d.view id <;> rfl

theorem serve_get_ok {a : StoreAnswer} (hr : (d.serve mint (.get id)).1 = .ok a) :
    ∃ u, d.view id = some u ∧ a = .user u := by
  rw [serve_get] at hr
  split at hr
  · rename_i u hu
    cases hr
    exact ⟨u, hu, rfl⟩
  · cases hr

theorem mem_currentUsers : u ∈ d.currentUsers ↔
    ∃ i ∈ d.identities, i.isDeleted = false ∧ i.versions.getLast? = some u := by
  rw [currentUsers, List.mem_filterMap]
  refine exists_congr fun i => and_congr_right fun _ => ?_
  cases hd : i.isDeleted <;> simp [Identity.current?, Identity.latest?, hd]

theorem Sound.mem_currentUsers_iff (h : d.Sound mint) :
    u ∈ d.currentUsers ↔ d.view u.id = some u := by
  rw [mem_currentUsers, view_eq_some_iff]
  constructor
  · rintro ⟨i, hi, hlive, hlast⟩
    have hfind := h.identity?_of_mem hi
    have hid := (h.identity hfind).owned u (List.mem_of_getLast? hlast)
    exact ⟨i, hid ▸ hfind, hlive, hlast⟩
  · rintro ⟨i, hi, hlive, hlast⟩
    exact ⟨i, List.mem_of_find?_eq_some hi, hlive, hlast⟩

theorem serve_getByEmail (mint : Mint) (d : Directory) (e : String) :
    (d.serve mint (.getByEmail e)).1 =
      match d.currentUsers.find? (·.email = e) with
      | some u => .ok (.user u)
      | none => .error (.emailNotFound e) := by
  have hreply : (d.serve mint (.getByEmail e)).1 = (d.getByEmail e).map .user := rfl
  rw [hreply, getByEmail]
  cases d.currentUsers.find? (·.email = e) <;> rfl

theorem serve_getByEmail_cases (mint : Mint) (d : Directory) (e : String) :
    (d.serve mint (.getByEmail e)).1 = .error (.emailNotFound e) ∨
      ∃ u, (d.serve mint (.getByEmail e)).1 = .ok (.user u) := by
  rw [serve_getByEmail]
  cases d.currentUsers.find? (·.email = e) with
  | none => exact Or.inl rfl
  | some u => exact Or.inr ⟨u, rfl⟩

theorem serve_getByEmail_ok (h : d.Sound mint) {e : String}
    (hr : (d.serve mint (.getByEmail e)).1 = .ok (.user u)) :
    d.view u.id = some u ∧ u.email = e := by
  rw [serve_getByEmail] at hr
  split at hr
  · rename_i v hv
    cases hr
    have hview := h.mem_currentUsers_iff.mp (List.mem_of_find?_eq_some hv)
    have he := List.find?_some hv
    exact ⟨hview, by simpa using he⟩
  · cases hr

theorem Sound.serve_getByEmail_eq_error (h : d.Sound mint) {e : String} :
    (d.serve mint (.getByEmail e)).1 = .error (.emailNotFound e) ↔
      ∀ u, d.view u.id = some u → u.email ≠ e := by
  rw [serve_getByEmail]
  constructor
  · intro hr u hu he
    split at hr
    · cases hr
    · rename_i hnone
      have hmem := h.mem_currentUsers_iff.mpr hu
      simpa [he] using List.find?_eq_none.mp hnone u hmem
  · intro hnone
    split
    · rename_i u hu
      have hview := h.mem_currentUsers_iff.mp (List.mem_of_find?_eq_some hu)
      exact absurd (by simpa using List.find?_some hu) (hnone u hview)
    · rfl

theorem view_of_serve (h : d.Sound mint) {q : StoreRequest} (hq : q.IsRead)
    (hr : (d.serve mint q).1 = .ok (.user u)) : d.view u.id = some u := by
  cases q with
  | get id =>
      obtain ⟨v, hv, ⟨⟩⟩ := serve_get_ok hr
      rw [h.id_of_view hv]
      exact hv
  | getByEmail e => exact (serve_getByEmail_ok h hr).1
  | _ => exact hq.elim

theorem Sound.ne_view_of_sublist (h : d.Sound mint) (hs : [u, v].Sublist (d.history id)) :
    d.view id ≠ some u := by
  intro hv
  have hnodup := h.nodup_history id
  obtain ⟨init, hinit⟩ := List.getLast?_eq_some_iff.mp (getLast?_history_of_view hv)
  rw [hinit] at hs hnodup
  obtain ⟨l₁, l₂, hsplit, h₁, h₂⟩ := List.sublist_append_iff.mp hs
  have hu : u ∉ init := fun hmem =>
    (List.nodup_append.mp hnodup).2.2 u hmem u (List.mem_singleton_self u) rfl
  rcases l₁ with _ | ⟨x, l₁⟩
  · rw [List.nil_append] at hsplit
    have hle := h₂.length_le
    rw [← hsplit] at hle
    simp at hle
  · obtain ⟨rfl, -⟩ : u = x ∧ [v] = l₁ ++ l₂ := by simpa using hsplit
    exact hu (h₁.subset List.mem_cons_self)

theorem Extends.sublist_of_mem (he : d.Extends d') (h' : d'.Sound mint)
    (hv : v ∈ d.history id) (hs : [u, v].Sublist (d'.history id)) :
    [u, v].Sublist (d.history id) := by
  obtain ⟨rest, hrest⟩ := he.history id
  have hnodup := h'.nodup_history id
  rw [← hrest] at hs hnodup
  have hv' : v ∉ rest := fun hmem => (List.nodup_append.mp hnodup).2.2 v hv v hmem rfl
  obtain ⟨l₁, l₂, hsplit, h₁, h₂⟩ := List.sublist_append_iff.mp hs
  rcases l₂ with _ | ⟨x, l₂⟩
  · rw [List.append_nil] at hsplit
    rw [hsplit]
    exact h₁
  · have hmem : v ∈ x :: l₂ := by
      have hlast := congrArg List.getLast? hsplit
      rw [List.getLast?_append_of_ne_nil _ (List.cons_ne_nil x l₂)] at hlast
      exact List.mem_of_getLast? hlast.symm
    exact absurd (h₂.subset hmem) hv'

/-- The directories that requests can lead to from an empty one. -/
inductive Reachable (mint : Mint) : Directory → Prop
  | empty : Reachable mint {}
  | serve {d : Directory} (h : Reachable mint d) (q : StoreRequest) :
      Reachable mint (d.serve mint q).2

theorem Reachable.sound (h : d.Reachable mint) (hm : mint.Fresh d.drawn) : d.Sound mint := by
  induction h with
  | empty => exact sound_empty mint
  | serve h q ih => exact ((ih (hm.mono (drawn_le_serve mint _ q))).serve q hm).1

end Directory

end UserDirectory

import Mathlib.Data.List.Nodup
import UserDirectory.Proofs.Directory.Sparing

/-!
The journal of a directory: the requests that it has served from the beginning, with their replies.
The versions of a user are the users that saves have returned under its id, in their order, and a
user is deleted if a deletion of it is in the journal.
-/

namespace UserDirectory

abbrev Journal := List (StoreRequest × StoreReply)

/-- The version that a save has returned under an id. -/
def savedAs? (id : Uuid) : StoreRequest × StoreReply → Option User
  | (.save _, .ok (.user v)) => if v.id = id then some v else none
  | _ => none

/-- The versions that saves have returned under an id, earliest first. -/
def Journal.saves (es : Journal) (id : Uuid) : List User := es.filterMap (savedAs? id)

def Journal.Deletes (es : Journal) (id : Uuid) : Prop := (.delete id, .ok .done) ∈ es

theorem savedAs?_eq_some {id : Uuid} {e : StoreRequest × StoreReply} {v : User} :
    savedAs? id e = some v ↔ (∃ u, e = (.save u, .ok (.user v))) ∧ v.id = id := by
  rcases e with ⟨q, r⟩
  constructor
  · intro h
    simp only [savedAs?] at h
    split at h
    · rename_i u w heq
      cases heq
      split at h
      · cases h
        exact ⟨⟨u, rfl⟩, ‹_›⟩
      · cases h
    · cases h
  · rintro ⟨⟨u, ⟨⟩⟩, hid⟩
    simp [savedAs?, hid]

theorem Journal.saves_append (es : Journal) (e : StoreRequest × StoreReply) (id : Uuid) :
    Journal.saves (es ++ [e]) id = es.saves id ++ (savedAs? id e).toList := by
  rw [saves, List.filterMap_append, saves]
  rcases h : savedAs? id e with _ | v <;> simp [h]

theorem Journal.mem_saves {es : Journal} {id : Uuid} {v : User} :
    v ∈ es.saves id ↔ (∃ u, (.save u, .ok (.user v)) ∈ es) ∧ v.id = id := by
  simp only [saves, List.mem_filterMap, savedAs?_eq_some]
  constructor
  · rintro ⟨_, he, ⟨u, rfl⟩, hid⟩
    exact ⟨⟨u, he⟩, hid⟩
  · rintro ⟨⟨u, he⟩, hid⟩
    exact ⟨_, he, ⟨u, rfl⟩, hid⟩

namespace Directory

variable {mint : Mint} {d d' : Directory} {id : Uuid} {u v : User} {q : StoreRequest}
  {qs : List StoreRequest}

def journal (mint : Mint) (d : Directory) : List StoreRequest → Journal
  | [] => []
  | q :: qs => (q, (d.serve mint q).1) :: journal mint (d.serve mint q).2 qs

/-- What becomes of the identities when a request has got a reply. -/
inductive ChangedBy (d d' : Directory) : StoreRequest → StoreReply → Prop
  | saved {u v : User} (eq : v = ⟨v.id, v.versionId, true, u.firstName, u.lastName, u.email,
      u.phone, u.isAdmin, u.passwordHash⟩) (id_eq : u.id ≠ .nil → v.id = u.id)
      (isNew : d.identity? v.id = none ↔ u.id = .nil) (live : ¬ d.IsDeleted v.id)
      (changes : d.Changes d' ⟨v.id, false, d.history v.id ++ [v]⟩) :
      ChangedBy d d' (.save u) (.ok (.user v))
  | deleted {id : Uuid} {i : Identity} (found : d.identity? id = some i)
      (live : i.isDeleted = false) (changes : d.Changes d' { i with isDeleted := true }) :
      ChangedBy d d' (.delete id) (.ok .done)
  | refused {q : StoreRequest} {e : UserError} (same : d'.identities = d.identities) :
      ChangedBy d d' q (.error e)
  | read {q : StoreRequest} {r : StoreReply} (hq : ¬ q.IsWrite)
      (same : d'.identities = d.identities) : ChangedBy d d' q r

theorem stage_eq (mint : Mint) (n : Nat) (u : User) :
    (u.stage mint n).user = ⟨(u.stage mint n).user.id, (u.stage mint n).user.versionId, true,
      u.firstName, u.lastName, u.email, u.phone, u.isAdmin, u.passwordHash⟩ := by
  simp only [User.stage]
  split <;> rfl

theorem id_stage_of_ne_nil (mint : Mint) (n : Nat) (hu : u.id ≠ .nil) :
    (u.stage mint n).user.id = u.id := by
  have hnil : ¬ u.id.isNil = true := fun h => hu (Uuid.isNil_iff.mp h)
  simp only [User.stage, if_neg hnil]

theorem Sound.identity?_stage (h : d.Sound mint)
    (hm : mint.Fresh (d.serve mint (.save u)).2.drawn) {a : StoreAnswer}
    (hr : (d.serve mint (.save u)).1 = .ok a) :
    d.identity? (u.stage mint d.drawn).user.id = none ↔ u.id = .nil := by
  constructor
  · intro hnone
    by_contra hu
    rw [id_stage_of_ne_nil mint d.drawn hu] at hnone
    have hnil : ¬ u.id.isNil = true := fun h => hu (Uuid.isNil_iff.mp h)
    have hfind : d.identities.find? (fun i => decide (i.id = u.id)) = none := hnone
    simp [Directory.serve, save, count, identity?, User.stage, hnil, hfind, Except.map] at hr
  · intro hu
    rcases hi : d.identity? (u.stage mint d.drawn).user.id with _ | i
    · rfl
    · obtain ⟨k, hk, he⟩ := (h.identity hi).minted
      have hnil : u.id.isNil = true := Uuid.isNil_iff.mpr hu
      rw [drawn_serve_save] at hm
      rw [id_of_identity? hi] at he
      simp only [User.stage, if_pos hnil] at hm he
      exact absurd he.symm ((hm (d.drawn + 1) (Nat.lt_succ_self _)).2 k (Nat.lt_succ_of_lt hk))

theorem Sound.changedBy_serve (h : d.Sound mint) (hm : mint.Fresh (d.serve mint q).2.drawn) :
    ChangedBy d (d.serve mint q).2 q (d.serve mint q).1 := by
  by_cases hq : q.IsWrite
  · rcases hr : (d.serve mint q).1 with e | a
    · exact .refused (h.identities_serve hm hq hr)
    · cases q with
      | save u =>
          have hnew := h.identity?_stage hm hr
          obtain ⟨v, rfl, hlive, hc⟩ := serve_save_ok h hm hr
          cases eq_of_serve_save hr
          exact .saved (stage_eq mint d.drawn u) (id_stage_of_ne_nil mint d.drawn) hnew hlive hc
      | delete id =>
          have hcount : (d.count (.delete id)).Sound mint := h.of_identities rfl (Nat.le_refl _)
          have hreply : (d.serve mint (.delete id)).1 =
              ((d.count (.delete id)).delete id).1.map fun _ => .done := rfl
          rcases hcount.delete_spec id with ⟨i, hok, hi, hlive, -, hc, -⟩ | ⟨herr, -⟩
          · rw [hreply, hok] at hr
            cases hr
            exact .deleted hi hlive hc
          · rw [hreply, herr] at hr
            cases hr
      | _ => exact hq.elim
  · exact .read hq (identities_of_contents (contents_serve mint d hq))

theorem history_of_identities (h : d'.identities = d.identities) (id : Uuid) :
    d'.history id = d.history id := by
  rw [history, history, identity?, h]
  rfl

theorem isDeleted_of_identities (h : d'.identities = d.identities) (id : Uuid) :
    d'.IsDeleted id ↔ d.IsDeleted id := by
  rw [IsDeleted, IsDeleted, identity?, h]
  rfl

theorem ChangedBy.history {r : StoreReply} (h : ChangedBy d d' q r) (id : Uuid) :
    d'.history id = d.history id ++ (savedAs? id (q, r)).toList := by
  cases h with
  | @saved u v staged id_eq isNew live changes =>
      by_cases hid : v.id = id
      · subst hid
        simp [savedAs?, history_append changes]
      · have hne : id ≠ v.id := fun he => hid he.symm
        simp [savedAs?, hid, Directory.history, changes id, hne]
  | @deleted id' i found live changes =>
      have hi : i.id = id' := id_of_identity? found
      by_cases hid : id = i.id
      · subst hid
        subst hi
        simp [savedAs?, Directory.history, changes i.id, found]
      · simp [savedAs?, Directory.history, changes id, hid]
  | refused same => simp [savedAs?, history_of_identities same]
  | read hq same =>
      have hnone : savedAs? id (q, r) = none := by
        cases q with
        | save u => exact absurd trivial hq
        | _ => rfl
      simp [hnone, history_of_identities same]

theorem ChangedBy.isDeleted {r : StoreReply} (h : ChangedBy d d' q r) (id : Uuid) :
    d'.IsDeleted id ↔ d.IsDeleted id ∨ (q, r) = (.delete id, .ok .done) := by
  cases h with
  | @saved u v staged id_eq isNew live changes =>
      have hlive : (StoreRequest.save u, Except.ok (StoreAnswer.user v)) ≠
          ((.delete id, .ok .done) : StoreRequest × StoreReply) := by simp
      by_cases hid : id = v.id
      · have hnew : ¬ d'.IsDeleted v.id := by simp [IsDeleted, changes v.id]
        subst hid
        simp [live, hnew]
      · simp [IsDeleted, changes id, hid]
  | @deleted id' i found live changes =>
      have hi : i.id = id' := id_of_identity? found
      subst hi
      by_cases hid : id = i.id
      · subst hid
        simp [IsDeleted, changes i.id]
      · have hne : i.id ≠ id := fun he => hid he.symm
        simp [IsDeleted, changes id, hid, hne]
  | refused same => simp [isDeleted_of_identities same]
  | read hq same =>
      have hne : q ≠ .delete id := by
        rintro rfl
        exact hq trivial
      simp [isDeleted_of_identities same, hne]

theorem journal_append (mint : Mint) (d : Directory) (qs : List StoreRequest) (q : StoreRequest) :
    d.journal mint (qs ++ [q]) =
      d.journal mint qs ++ [(q, ((d.serveAll mint qs).serve mint q).1)] := by
  induction qs generalizing d with
  | nil => rfl
  | cons q' qs ih =>
      simp only [List.cons_append, journal, ih]
      rfl

theorem reachable_serveAll (mint : Mint) (qs : List StoreRequest) :
    (serveAll mint {} qs).Reachable mint := by
  induction qs using List.reverseRecOn with
  | nil => exact .empty
  | append_singleton qs q ih =>
      rw [serveAll_append]
      exact .serve ih q

theorem drawn_le_serveAll (mint : Mint) (d : Directory) (qs rs : List StoreRequest) :
    (d.serveAll mint qs).drawn ≤ (d.serveAll mint (qs ++ rs)).drawn := by
  induction rs using List.reverseRecOn with
  | nil => rw [List.append_nil]
  | append_singleton rs q ih =>
      rw [← List.append_assoc, serveAll_append]
      exact Nat.le_trans ih (drawn_le_serve mint _ q)

theorem history_serveAll (hm : mint.Fresh (serveAll mint {} qs).drawn) (id : Uuid) :
    (serveAll mint {} qs).history id = (journal mint {} qs).saves id := by
  induction qs using List.reverseRecOn with
  | nil => rfl
  | append_singleton qs q ih =>
      have hm' := hm.mono (drawn_le_serveAll mint {} qs [q])
      rw [serveAll_append] at hm ⊢
      have hsound := (reachable_serveAll mint qs).sound hm'
      rw [(hsound.changedBy_serve hm).history id, ih hm', journal_append, Journal.saves_append]

theorem isDeleted_serveAll (hm : mint.Fresh (serveAll mint {} qs).drawn) (id : Uuid) :
    (serveAll mint {} qs).IsDeleted id ↔ (journal mint {} qs).Deletes id := by
  induction qs using List.reverseRecOn with
  | nil => simp [serveAll, IsDeleted, identity?, journal, Journal.Deletes]
  | append_singleton qs q ih =>
      have hm' := hm.mono (drawn_le_serveAll mint {} qs [q])
      rw [serveAll_append] at hm ⊢
      have hsound := (reachable_serveAll mint qs).sound hm'
      rw [(hsound.changedBy_serve hm).isDeleted id, ih hm', journal_append, Journal.Deletes,
        Journal.Deletes, List.mem_append, List.mem_singleton]
      exact or_congr_right eq_comm

theorem lt_drawn_serve_save (mint : Mint) (d : Directory) (u : User) :
    d.drawn < (d.serve mint (.save u)).2.drawn := by
  rw [drawn_serve_save]
  simp only [User.stage]
  split
  · exact Nat.lt_add_of_pos_right (by decide)
  · exact Nat.lt_succ_self _

theorem versionId_of_serve_save (h : (d.serve mint (.save u)).1 = .ok (.user v)) :
    v.versionId = mint d.drawn := by
  cases eq_of_serve_save h
  simp only [User.stage]
  split <;> rfl

theorem Sound.versionId_ne_of_saved (h : d.Sound mint) (hm : mint.Fresh (d.serve mint q).2.drawn)
    {id' : Uuid} (hu : u ∈ d.history id) (hv : savedAs? id' (q, (d.serve mint q).1) = some v) :
    u.versionId ≠ v.versionId := by
  obtain ⟨⟨w, he⟩, -⟩ := savedAs?_eq_some.mp hv
  obtain ⟨rfl, hr⟩ := Prod.mk.inj he
  obtain ⟨k, hk, hminted⟩ := h.versionId_minted hu
  rw [hminted, versionId_of_serve_save hr]
  exact (hm d.drawn (lt_drawn_serve_save mint d w)).2 k hk

theorem Reachable.id_eq_of_versionId (h : d.Reachable mint) (hm : mint.Fresh d.drawn) {id' : Uuid}
    (hu : u ∈ d.history id) (hv : v ∈ d.history id') (he : u.versionId = v.versionId) :
    id = id' := by
  induction h with
  | empty => cases hu
  | @serve d h q ih =>
      have hm' := hm.mono (drawn_le_serve mint d q)
      have hsound := h.sound hm'
      have hchanged := hsound.changedBy_serve hm
      rw [hchanged.history] at hu hv
      rcases List.mem_append.mp hu with hu | hu
      · rcases List.mem_append.mp hv with hv | hv
        · exact ih hm' hu hv
        · exact absurd he (hsound.versionId_ne_of_saved hm hu (Option.mem_toList.mp hv))
      · rcases List.mem_append.mp hv with hv | hv
        · exact absurd he.symm (hsound.versionId_ne_of_saved hm hv (Option.mem_toList.mp hu))
        · obtain ⟨⟨w, hu⟩, hid⟩ := savedAs?_eq_some.mp (Option.mem_toList.mp hu)
          obtain ⟨⟨w', hv⟩, hid'⟩ := savedAs?_eq_some.mp (Option.mem_toList.mp hv)
          rw [hu] at hv
          cases hv
          exact hid.symm.trans hid'

theorem Sound.versions_of_mem (h : d.Sound mint) {i : Identity} (hi : i ∈ d.identities) :
    i.versions = d.history i.id := by
  rw [history, h.identity?_of_mem hi]
  rfl

theorem Reachable.versionIds_nodup (h : d.Reachable mint) (hm : mint.Fresh d.drawn) :
    (d.identities.flatMap fun i => i.versions.map (·.versionId)).Nodup := by
  have hsound := h.sound hm
  rw [List.nodup_flatMap]
  constructor
  · intro i hi
    exact (hsound.identity (hsound.identity?_of_mem hi)).versionIds_nodup
  · refine hsound.sorted.imp_of_mem ?_
    intro i j hi hj hlt a ha ha'
    obtain ⟨u, hu, rfl⟩ := List.mem_map.mp ha
    obtain ⟨v, hv, he⟩ := List.mem_map.mp ha'
    rw [hsound.versions_of_mem hi] at hu
    rw [hsound.versions_of_mem hj] at hv
    have hid := h.id_eq_of_versionId hm hu hv he.symm
    rw [hid] at hlt
    exact Nat.lt_irrefl _ hlt

theorem version?_of_mem {i : Identity} (h : (i.versions.map (·.versionId)).Nodup)
    (hv : v ∈ i.versions) :
    i.version? v.versionId = some { v with isLatestVersion := i.versions.getLast? = some v } := by
  obtain ⟨n, hn, rfl⟩ := List.mem_iff_getElem.mp hv
  have hunique : ∀ m (hm : m < i.versions.length),
      i.versions[m].versionId = i.versions[n].versionId → m = n := by
    intro m hm he
    refine (List.getElem?_inj (by simpa using hm) h).mp ?_
    simp [hm, hn, he]
  have hfirst : i.versions.findIdx? (fun u => decide (u.versionId = i.versions[n].versionId)) =
      some n := by
    rw [List.findIdx?_eq_some_iff_getElem]
    refine ⟨hn, by simp, ?_⟩
    intro m hmn hm
    exact Nat.ne_of_lt hmn (hunique m (Nat.lt_trans hmn hn) (by simpa using hm))
  have hlast : (n + 1 = i.versions.length) ↔ i.versions.getLast? = some i.versions[n] := by
    rw [List.getLast?_eq_getElem?, List.getElem?_eq_some_iff]
    constructor
    · intro hlength
      exact ⟨by omega, by simp [← hlength]⟩
    · rintro ⟨hm, he⟩
      have := hunique _ hm (congrArg User.versionId he)
      omega
  simp only [Identity.version?, hfirst, List.getElem?_eq_getElem hn, Option.map_some, hlast]

theorem mem_of_version? {i : Identity} {versionId : Uuid} (h : i.version? versionId = some u) :
    ∃ v ∈ i.versions, v.versionId = versionId := by
  simp only [Identity.version?] at h
  split at h
  · rename_i n hn
    obtain ⟨hlt, hfound, -⟩ := List.findIdx?_eq_some_iff_getElem.mp hn
    exact ⟨i.versions[n], List.getElem_mem hlt, by simpa using hfound⟩
  · cases h

/-- Whatever has been saved is found by the id of the version, also after a deletion. -/
theorem Reachable.getVersion_of_mem (h : d.Reachable mint) (hm : mint.Fresh d.drawn)
    (hv : v ∈ d.history id) :
    d.getVersion v.versionId =
      .ok { v with isLatestVersion := (d.history id).getLast? = some v } := by
  have hsound := h.sound hm
  rcases hi : d.identity? id with _ | i
  · simp [history, hi] at hv
  · have hid : i.id = id := id_of_identity? hi
    have hmem : i ∈ d.identities := List.mem_of_find?_eq_some hi
    have hversions := hsound.versions_of_mem hmem
    rw [hid] at hversions
    rw [← hversions] at hv ⊢
    have hfound : d.identities.findSome? (·.version? v.versionId) =
        some { v with isLatestVersion := i.versions.getLast? = some v } := by
      obtain ⟨before, after, hsplit⟩ := List.append_of_mem hmem
      rw [List.findSome?_eq_some_iff]
      refine ⟨before, i, after, hsplit, version?_of_mem (hsound.identity hi).versionIds_nodup hv,
        ?_⟩
      -- No identity before this one has a version with the id.
      intro j hj
      by_contra hne
      obtain ⟨u, hu⟩ := Option.ne_none_iff_exists'.mp hne
      obtain ⟨w, hw, he⟩ := mem_of_version? hu
      have hjmem : j ∈ d.identities := by simp [hsplit, hj]
      rw [hsound.versions_of_mem hjmem] at hw
      rw [hversions] at hv
      have hsame := h.id_eq_of_versionId hm hw hv he
      have hsorted := hsound.sorted
      rw [hsplit, List.pairwise_append] at hsorted
      have hlt := hsorted.2.2 j hj i List.mem_cons_self
      rw [hsame, hid] at hlt
      exact Nat.lt_irrefl _ hlt
    rw [getVersion, hfound]

theorem view_of_live (h : ¬ d.IsDeleted id) : d.view id = (d.history id).getLast? := by
  rcases hi : d.identity? id with _ | i
  · simp [view, history, hi]
  · have hlive : i.isDeleted = false := by
      by_contra hdeleted
      exact h ⟨i, hi, by simpa using hdeleted⟩
    simp [view, history, hi, Identity.current?, Identity.latest?, hlive]

theorem Sound.ne_nil_of_identity? (h : d.Sound mint) (hm : mint.Fresh d.drawn) {i : Identity}
    (hi : d.identity? id = some i) : id ≠ .nil := by
  obtain ⟨k, hk, hminted⟩ := (h.identity hi).minted
  rw [← id_of_identity? hi, hminted]
  exact (hm k hk).1

theorem Sound.ne_nil_of_isDeleted (h : d.Sound mint) (hm : mint.Fresh d.drawn)
    (hid : d.IsDeleted id) : id ≠ .nil := by
  obtain ⟨i, hi, -⟩ := hid
  exact h.ne_nil_of_identity? hm hi

theorem Sound.ne_nil_of_mem_history (h : d.Sound mint) (hm : mint.Fresh d.drawn)
    (hu : u ∈ d.history id) : id ≠ .nil := by
  rcases hi : d.identity? id with _ | i
  · simp [history, hi] at hu
  · exact h.ne_nil_of_identity? hm hi

theorem IsDeleted.save (h : d.IsDeleted u.id) (hu : u.id ≠ .nil) :
    (d.save mint u).1 = .error (.notFound u.id) := by
  obtain ⟨i, hi, hdeleted⟩ := h
  have hnil : ¬ u.id.isNil = true := fun h => hu (Uuid.isNil_iff.mp h)
  have hfind : d.identities.find? (fun i => decide (i.id = u.id)) = some i := hi
  simp [Directory.save, User.stage, hnil, identity?, hfind, hdeleted]

theorem IsDeleted.delete (h : d.IsDeleted id) : (d.delete id).1 = .error (.notFound id) := by
  obtain ⟨i, hi, hdeleted⟩ := h
  simp [Directory.delete, hi, hdeleted]

end Directory

end UserDirectory

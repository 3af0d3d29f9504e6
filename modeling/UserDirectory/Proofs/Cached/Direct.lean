import UserDirectory.Proofs.Cached.World
import UserDirectory.Proofs.Directory.Contents

namespace UserDirectory

/-- A store that answers as a directory does that has been asked the same, and no cache. -/
def World.ofDirectory (mint : Mint) (d : Directory) : World where
  store asked q := ((d.serveAll mint asked).serve mint q).1
  cache _ _ := .error .keyNotFound
  fences _ := {}

/-- What a job ends in that is done on a directory without a cache, and the directory after it. -/
def Directory.perform (mint : Mint) (d : Directory) (j : Job) : StoreReply × Directory :=
  let course := (World.ofDirectory mint d).perform none j
  (course.2, d.serveAll mint ((storeCalls none course.1).map Prod.fst))

variable {W : World} {w : Wiring} {f : Fences} {mint : Mint} {d : Directory} {q : StoreRequest}

namespace World

theorem follow_of_finished {past : List Encounter} {s : Stage} {a : StoreReply}
    (h : ((W.encounter w past s).turn w).next = .finished a) :
    W.follow w past s = ([W.encounter w past s], a) := by
  rw [follow]
  split
  · rename_i b hb
    rw [h] at hb
    cases hb
    rfl
  · rename_i s' hs
    rw [h] at hs
    cases hs

theorem follow_of_stage {past : List Encounter} {s s' : Stage}
    (h : ((W.encounter w past s).turn w).next = .stage s') :
    W.follow w past s =
      (W.encounter w past s :: (W.follow w (past ++ [W.encounter w past s]) s').1,
        (W.follow w (past ++ [W.encounter w past s]) s').2) := by
  rw [follow]
  split
  · rename_i b hb
    rw [h] at hb
    cases hb
  · rename_i s'' hs
    rw [h] at hs
    cases hs
    rfl

end World

/-- Whether a task without a cache asks the store for one thing at a stage, and ends with the
answer. -/
structure Stage.Passes (q : StoreRequest) (s : Stage) : Prop where
  request : s.request none = .store q
  next : ∀ f r, (s.turn none f (.store r)).next = .finished r

theorem Stage.passes_save (u : User) : (Stage.save u none).Passes (.save u) where
  request := rfl
  next f r := by
    rcases r with e | (u | us | _) <;> rfl

theorem Job.start_request (f : Fences) (q : StoreRequest) :
    ∃ s, (Job.request q).start none f = .stage s ∧ s.Passes q := by
  cases q with
  | save u => exact ⟨_, rfl, Stage.passes_save u⟩
  | _ =>
      refine ⟨_, rfl, rfl, ?_⟩
      intro f r
      rcases r with e | (u | us | _) <;> rfl

namespace World

theorem perform_of_start {j : Job} {s : Stage} (h : j.start w (W.fences []) = .stage s) :
    W.perform w j = W.follow w [] s := by
  simp only [perform, h]

theorem storeCall?_encounter {past : List Encounter} {s : Stage} (h : s.request w = .store q) :
    (W.encounter w past s).storeCall? w =
      some (q, W.store ((storeCalls w past).map Prod.fst) q) := by
  have hreply : (W.encounter w past s).reply = W.reply w past (s.request w) := rfl
  simp only [Encounter.storeCall?, Encounter.request, hreply, h, reply]
  rw [show (W.encounter w past s).stage = s from rfl, h]

theorem turn_encounter {past : List Encounter} {s : Stage} (h : s.request w = .store q) :
    (W.encounter w past s).turn w =
      s.turn w (W.fences past) (.store (W.store ((storeCalls w past).map Prod.fst) q)) := by
  have hreply : (W.encounter w past s).reply = W.reply w past (s.request w) := rfl
  rw [Encounter.turn, hreply, h]
  rfl

theorem follow_of_passes {past : List Encounter} {s : Stage} (h : s.Passes q) :
    W.follow none past s =
      ([W.encounter none past s], W.store ((storeCalls none past).map Prod.fst) q) := by
  refine follow_of_finished ?_
  rw [turn_encounter h.request]
  exact h.next _ _

end World

namespace Directory

theorem perform_request (mint : Mint) (d : Directory) (q : StoreRequest) :
    d.perform mint (.request q) = d.serve mint q := by
  obtain ⟨s, hstart, hpasses⟩ := Job.start_request ((World.ofDirectory mint d).fences []) q
  rw [perform, World.perform_of_start hstart, World.follow_of_passes hpasses]
  simp only [storeCalls, List.filterMap_cons, World.storeCall?_encounter hpasses.request]
  rfl

theorem perform_amend (mint : Mint) (d : Directory) (id : Uuid) (patch : UserPatch) :
    d.perform mint (.amend id patch) =
      match d.view id with
      | some u => (d.count (.get id)).serve mint (.save (u.apply patch))
      | none => (.error (.notFound id), d.count (.get id)) := by
  let W := World.ofDirectory mint d
  let fetch := Stage.fetch id 0 (.amend patch)
  have hrequest : fetch.request none = .store (.get id) := rfl
  have hstart : (Job.amend id patch).start none (W.fences []) = .stage fetch := rfl
  have hread : W.store [] (.get id) =
      match d.view id with
      | some u => .ok (.user u)
      | none => .error (.notFound id) := serve_get mint d id
  have hturn : (W.encounter none [] fetch).turn none = fetch.turn none {} (.store _) :=
    W.turn_encounter hrequest
  have hcall : (W.encounter none [] fetch).storeCall? none = some (.get id, _) :=
    W.storeCall?_encounter hrequest
  rw [perform, World.perform_of_start hstart]
  cases hview : d.view id with
  | none =>
      have hnext : ((W.encounter none [] fetch).turn none).next =
          .finished (.error (.notFound id)) := by
        rw [hturn]
        simp only [storeCalls, List.filterMap_nil, List.map_nil, hread, hview]
        rfl
      rw [World.follow_of_finished hnext]
      simp only [storeCalls, List.filterMap_cons, hcall]
      rfl
  | some u =>
      have hnext : ((W.encounter none [] fetch).turn none).next =
          .stage (.save (u.apply patch) none) := by
        rw [hturn]
        simp only [storeCalls, List.filterMap_nil, List.map_nil, hread, hview]
        rfl
      have hpasses := Stage.passes_save (u.apply patch)
      rw [World.follow_of_stage hnext, World.follow_of_passes hpasses]
      simp only [storeCalls, List.filterMap_cons, hcall,
        World.storeCall?_encounter hpasses.request, List.nil_append, List.filterMap_nil,
        List.map_cons, List.map_nil]
      rfl

end Directory

end UserDirectory

import UserDirectory.Cached.Rank
import UserDirectory.Proofs.Cached.Successor

/-!
One task in any surroundings. The store, the cache and the fences that it meets may be any; it goes
from stage to stage until it ends, since every turn that goes on lowers the rank of its stage.
-/

namespace UserDirectory

/-- A stage of a task, the reply that it has got there, and the fences that it has found. -/
structure Encounter where
  stage : Stage
  reply : Reply
  fences : Fences

namespace Encounter

def request (w : Wiring) (x : Encounter) : Request := x.stage.request w

def turn (w : Wiring) (x : Encounter) : Turn := x.stage.turn w x.fences x.reply

/-- The call of the store that is made in an encounter, and its result. -/
def storeCall? (w : Wiring) (x : Encounter) : Option (StoreRequest × StoreReply) :=
  match x.request w, x.reply with
  | .store q, .store r => some (q, r)
  | _, _ => none

end Encounter

def storeCalls (w : Wiring) (xs : List Encounter) : List (StoreRequest × StoreReply) :=
  xs.filterMap (·.storeCall? w)

/-- All that a task may meet: a store that answers by what it has been asked, and a cache and
fences that may be of any kind at any time. -/
structure World where
  store : List StoreRequest → StoreRequest → StoreReply
  cache : List Encounter → CacheRequest → CacheReply
  fences : List Encounter → Fences

theorem Purpose.Continues.rank_le {w : Wiring} {u : User} {p : Purpose} {s : Stage}
    (h : p.Continues w u s) : s.rank ≤ p.rank := by
  cases h with
  | saving => exact Nat.le_succ 6
  | replacing => exact Nat.le_refl 7
  | stale he => exact Nat.le_refl 6

theorem length_touchedEmails_le (u : User) (replaced : Option String) :
    (touchedEmails u replaced).length ≤ 2 := by
  refine Nat.le_trans (List.length_filter_le _ _) ?_
  cases replaced.filter (· ≠ u.email) <;> simp

theorem Purpose.Continues.rank_lt {w : Wiring} {u : User} {p : Purpose} {s : Stage}
    (h : p.Continues w u s) {k : Nat} (hk : 0 < k) : s.rank < k + p.rank :=
  Nat.lt_of_le_of_lt h.rank_le (Nat.lt_add_of_pos_left hk)

theorem Stage.Successor.rank_lt {w : Wiring} {f : Fences} {s s' : Stage} {r : Reply}
    (h : s.Successor w f r s') : s'.rank < s.rank := by
  cases h with
  | hit hu hs => exact hs.rank_lt (Nat.succ_pos 5)
  | fetched hs => exact hs.rank_lt (Nat.succ_pos 4)
  | skipped hn hs => exact hs.rank_lt (Nat.succ_pos 2)
  | written hs => exact hs.rank_lt (Nat.succ_pos 1)
  | indexWritten hs => exact hs.rank_lt Nat.one_pos
  | @saved u v replaced =>
      have hle := length_touchedEmails_le u replaced
      simp only [Stage.rank]
      omega
  | @deleted id email a =>
      have hle : (email.toList.filter (· ≠ "")).length ≤ 1 := by
        refine Nat.le_trans (List.length_filter_le _ _) ?_
        cases email <;> simp
      simp only [Stage.rank]
      omega
  | dropped =>
      simp only [Stage.rank, List.length_cons]
      omega
  | _ => simp [Stage.rank, sequelRank, Purpose.rank]

namespace World

variable {W : World} {w : Wiring}

def reply (W : World) (w : Wiring) (past : List Encounter) : Request → Reply
  | .cache q => .cache (W.cache past q)
  | .store q => .store (W.store ((storeCalls w past).map Prod.fst) q)
  | .fence _ => .granted

def encounter (W : World) (w : Wiring) (past : List Encounter) (s : Stage) : Encounter :=
  ⟨s, W.reply w past (s.request w), W.fences past⟩

theorem fits_reply (W : World) (w : Wiring) (past : List Encounter) (q : Request) :
    (W.reply w past q).Fits q := by
  cases q <;> trivial

theorem successor_of_next {past : List Encounter} {s s' : Stage}
    (h : ((W.encounter w past s).turn w).next = .stage s') :
    s.Successor w (W.fences past) (W.encounter w past s).reply s' :=
  (turn_leadsTo s (W.fits_reply w past _)).stage s' h

theorem results_of_next {past : List Encounter} {s : Stage} {a : StoreReply}
    (h : ((W.encounter w past s).turn w).next = .finished a) :
    s.Results w (W.encounter w past s).reply a :=
  (turn_leadsTo s (W.fits_reply w past _)).finished a h

/-- All that a task does from a stage on, after the encounters that it has had, and the reply with
which it ends. -/
def follow (W : World) (w : Wiring) (past : List Encounter) (s : Stage) :
    List Encounter × StoreReply :=
  match _ : ((W.encounter w past s).turn w).next with
  | .finished a => ([W.encounter w past s], a)
  | .stage s' =>
    let rest := W.follow w (past ++ [W.encounter w past s]) s'
    (W.encounter w past s :: rest.1, rest.2)
termination_by s.rank
decreasing_by
  rename_i h
  exact (successor_of_next h).rank_lt

def perform (W : World) (w : Wiring) (j : Job) : List Encounter × StoreReply :=
  match j.start w (W.fences []) with
  | .stage s => W.follow w [] s
  | .finished a => ([], a)

/-- The courses of encounters from a stage on, step by step. -/
inductive Trace (W : World) (w : Wiring) :
    List Encounter → Stage → List Encounter → StoreReply → Prop
  | finish {past : List Encounter} {s : Stage} {a : StoreReply}
      (h : ((W.encounter w past s).turn w).next = .finished a) :
      Trace W w past s [W.encounter w past s] a
  | proceed {past xs : List Encounter} {s s' : Stage} {a : StoreReply}
      (h : ((W.encounter w past s).turn w).next = .stage s')
      (ht : Trace W w (past ++ [W.encounter w past s]) s' xs a) :
      Trace W w past s (W.encounter w past s :: xs) a

theorem trace_follow (W : World) (w : Wiring) (past : List Encounter) (s : Stage) :
    W.Trace w past s (W.follow w past s).1 (W.follow w past s).2 := by
  fun_induction W.follow w past s with
  | case1 past s a h => exact .finish h
  | case2 past s s' h rest ih => exact .proceed h ih

theorem trace_perform (W : World) (w : Wiring) (q : StoreRequest) :
    ∃ s, (Job.request q).Starts w (W.fences []) s ∧
      W.Trace w [] s (W.perform w (.request q)).1 (W.perform w (.request q)).2 := by
  have hstage : ∃ s, (Job.request q).start w (W.fences []) = .stage s := by
    cases q with
    | save u =>
        simp only [Job.start, Next.save]
        split <;> exact ⟨_, rfl⟩
    | _ => exact ⟨_, rfl⟩
  obtain ⟨s, hs⟩ := hstage
  refine ⟨s, start_starts hs, ?_⟩
  simp only [perform, hs]
  exact W.trace_follow w [] s

end World

end UserDirectory

import UserDirectory.Proofs.Directory.Writes

namespace UserDirectory.Directory

variable {mint : Mint} {d d' : Directory} {id : Uuid} {u : User} {q : StoreRequest}

def contents (d : Directory) : List Identity × Nat := (d.identities, d.drawn)

theorem eq_of_contents (h : d'.contents = d.contents) : d' = { d with calls := d'.calls } := by
  obtain ⟨is, n, c⟩ := d
  obtain ⟨is', n', c'⟩ := d'
  cases h
  rfl

theorem save_with_calls (mint : Mint) (d : Directory) (c : CallCounts) (u : User) :
    (save mint { d with calls := c } u).1 = (save mint d u).1 ∧
      (save mint { d with calls := c } u).2.contents = (save mint d u).2.contents := by
  simp only [save, identity?]
  generalize List.find? _ _ = found
  cases found with
  | none => exact ⟨rfl, rfl⟩
  | some i =>
      simp only
      split <;> exact ⟨rfl, rfl⟩

theorem delete_with_calls (d : Directory) (c : CallCounts) (id : Uuid) :
    (delete { d with calls := c } id).1 = (delete d id).1 ∧
      (delete { d with calls := c } id).2.contents = (delete d id).2.contents := by
  simp only [delete, identity?]
  generalize List.find? _ _ = found
  cases found with
  | none => exact ⟨rfl, rfl⟩
  | some i =>
      simp only
      split <;> exact ⟨rfl, rfl⟩

theorem serve_congr (mint : Mint) (h : d'.contents = d.contents) (q : StoreRequest) :
    (d'.serve mint q).1 = (d.serve mint q).1 ∧
      (d'.serve mint q).2.contents = (d.serve mint q).2.contents := by
  rw [eq_of_contents h]
  cases q with
  | save u =>
      have hs := save_with_calls mint d ({ d with calls := d'.calls }.count (.save u)).calls u
      have hs' := save_with_calls mint d (d.count (.save u)).calls u
      exact ⟨congrArg (Except.map StoreAnswer.user) (hs.1.trans hs'.1.symm), hs.2.trans hs'.2.symm⟩
  | delete id =>
      have hs := delete_with_calls d ({ d with calls := d'.calls }.count (.delete id)).calls id
      have hs' := delete_with_calls d (d.count (.delete id)).calls id
      exact ⟨congrArg (Except.map fun _ => StoreAnswer.done) (hs.1.trans hs'.1.symm),
        hs.2.trans hs'.2.symm⟩
  | _ => exact ⟨rfl, rfl⟩

theorem contents_serve (mint : Mint) (d : Directory) (hq : ¬ q.IsWrite) :
    (d.serve mint q).2.contents = d.contents := by
  cases q with
  | save u => exact absurd trivial hq
  | delete id => exact absurd trivial hq
  | _ => rfl

theorem identities_of_contents (h : d'.contents = d.contents) : d'.identities = d.identities :=
  congrArg Prod.fst h

theorem drawn_of_contents (h : d'.contents = d.contents) : d'.drawn = d.drawn :=
  congrArg Prod.snd h

theorem history_congr (h : d'.contents = d.contents) (id : Uuid) :
    d'.history id = d.history id := by
  rw [eq_of_contents h]
  rfl

theorem view_congr (h : d'.contents = d.contents) (id : Uuid) : d'.view id = d.view id := by
  rw [eq_of_contents h]
  rfl

theorem superseded_congr (h : d'.contents = d.contents) {a : StoreAnswer} :
    d'.Superseded id a u ↔ d.Superseded id a u := by
  rw [eq_of_contents h]
  cases a <;> rfl

theorem stale_congr (h : d'.identities = d.identities) (u : User) : d'.Stale u ↔ d.Stale u := by
  rw [Stale, Stale, history, history, view, view, identity?, h]
  rfl

theorem Sound.identities_serve (h : d.Sound mint) (hm : mint.Fresh (d.serve mint q).2.drawn)
    (hq : q.IsWrite) {e : UserError} (hr : (d.serve mint q).1 = .error e) :
    (d.serve mint q).2.identities = d.identities := by
  have hcount : (d.count q).Sound mint := h.of_identities rfl (Nat.le_refl _)
  cases q with
  | save u =>
      have hreply : (d.serve mint (.save u)).1 =
          ((d.count (.save u)).save mint u).1.map .user := rfl
      rcases hcount.save_spec (u := u) hm with ⟨v, hok, -⟩ | ⟨-, -, hsame⟩
      · rw [hreply, hok] at hr
        cases hr
      · exact hsame
  | delete id =>
      have hreply : (d.serve mint (.delete id)).1 =
          ((d.count (.delete id)).delete id).1.map fun _ => .done := rfl
      rcases hcount.delete_spec id with ⟨i, hok, -⟩ | ⟨-, -, hsame⟩
      · rw [hreply, hok] at hr
        cases hr
      · have hidentities := congrArg identities hsame
        exact hidentities
  | _ => exact hq.elim

def serveAll (mint : Mint) (d : Directory) (qs : List StoreRequest) : Directory :=
  qs.foldl (fun d q => (d.serve mint q).2) d

theorem serveAll_append (mint : Mint) (d : Directory) (qs : List StoreRequest) (q : StoreRequest) :
    d.serveAll mint (qs ++ [q]) = ((d.serveAll mint qs).serve mint q).2 := by
  simp [serveAll]

end UserDirectory.Directory

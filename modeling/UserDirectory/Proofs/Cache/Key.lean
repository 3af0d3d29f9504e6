import UserDirectory.Cache.Key
import UserDirectory.Proofs.Uuid

namespace UserDirectory.CacheKey

theorem user_injective : Function.Injective user := by
  intro a b h
  rw [user, user] at h
  exact Uuid.render_injective (String.append_right_inj _ |>.mp h)

theorem email_injective : Function.Injective email := by
  intro a b h
  rw [email, email] at h
  exact String.append_right_inj _ |>.mp h

theorem email_ne_user (e : String) (id : Uuid) : email e ≠ user id := by
  obtain ⟨a, b, cs, hcs, hb⟩ := id.chars_eq_cons_cons
  intro h
  have hlist := congrArg String.toList h
  simp [email, user, Uuid.render, hcs] at hlist
  exact hb hlist.2.1.symm

end UserDirectory.CacheKey

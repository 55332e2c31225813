import Lisplet.Reader

/-!
Runs of the reader: the states that steps lead to from one another, up to the one at which
reading stops.
-/

set_option autoImplicit false

namespace Lisplet

namespace Reader

inductive Leads : List Pending → Cursor → List Pending → Cursor → Prop
  | here (pending : List Pending) (cursor : Cursor) : Leads pending cursor pending cursor
  | step {pending pending' last : List Pending} {cursor cursor' place : Cursor}
    (h : Reader.step pending cursor = .more pending' cursor')
    (hafter : Leads pending' cursor' last place) : Leads pending cursor last place

theorem readFrom_leads (pending : List Pending) (cursor : Cursor) :
    ∃ last place, Leads pending cursor last place ∧
      step last place = .stop (readFrom pending cursor) := by
  fun_induction readFrom pending cursor with
  | case1 pending cursor reading hstep => exact ⟨pending, cursor, .here pending cursor, hstep⟩
  | case2 pending cursor pending' cursor' hstep ih =>
    obtain ⟨last, place, hleads, hstop⟩ := ih
    exact ⟨last, place, .step hstep hleads, hstop⟩

theorem Leads.readFrom_eq {pending last : List Pending} {cursor place : Cursor}
    (h : Leads pending cursor last place) : readFrom pending cursor = readFrom last place := by
  induction h with
  | here => rfl
  | step hstep _ ih => rw [readFrom_of_more hstep, ih]

theorem Leads.length_le {pending last : List Pending} {cursor place : Cursor}
    (h : Leads pending cursor last place) : place.rest.length ≤ cursor.rest.length := by
  induction h with
  | here => exact Nat.le_refl _
  | @step pending _ _ cursor _ _ hstep _ ih =>
    have hlt := @length_step pending cursor _ (by rw [hstep]; rfl)
    exact Nat.le_trans ih (Nat.le_of_lt hlt)

end Reader

end Lisplet
